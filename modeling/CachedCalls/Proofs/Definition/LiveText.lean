/-
# Whether generated text is live

A wrapped function is declared and defined again with texts taken from the
source: its return type and its parameter list. Behind them stand characters
that the source does not have there, the name, a semicolon or an opening brace,
and these mean something only if they stand in code.

Both texts are trimmed. That is harmless except in one place. A comment that runs
to the end of its line is ended by a line break, the line break is a blank, and
trimming takes it away. What is appended then becomes part of the comment. The
theorems of this module say exactly when that happens for a parameter list; the
text up to the closing parenthesis always ends in code, so it depends only on
what stands between the parameter list and the body.
-/

import CachedCalls.Proofs.Definition.Placement
import CachedCalls.Proofs.Lexical.Closing
import CachedCalls.Proofs.Text.Word

namespace CachedCalls

open Text Lexical

/-- Whatever stands in front, a text between blanks swallows what follows just as the text with
its blanks does, unless it ends in a comment that only the blanks end. -/
theorem endsInCode_trimEnd_iff (text : String) :
    EndsInCode (trimEnd text) ↔ EndsInCode text ∧ ¬ EndsInLineComment (trimEnd text) := by
  obtain ⟨blanks, hblanks, htext⟩ := exists_trimEnd_append text
  have hscan : scan text = (scan (trimEnd text)).run blanks := by
    rw [scan, htext, Context.run_append, scan]
  rw [EndsInCode, EndsInCode, hscan, endsInLineComment_iff]
  exact Context.isCode_iff_of_allBlank hblanks (scan (trimEnd text))

theorem endsInCode_trim_iff (text : String) :
    EndsInCode (trim text) ↔ EndsInCode text ∧ ¬ EndsInLineComment (trim text) := by
  obtain ⟨before, after, hbefore, hafter, htext⟩ := exists_trim_append text
  have hscan : scan text = (scan (trim text)).run after := by
    rw [scan, htext, Context.run_append, Context.run_append, Context.run_code_of_allBlank hbefore,
      scan]
  rw [EndsInCode, EndsInCode, hscan, endsInLineComment_iff]
  exact Context.isCode_iff_of_allBlank hafter (scan (trim text))

/-- Scanning goes on behind a text that ends in code without anything pending. -/
theorem scan_append_of_scan_eq {front : String} (h : scan front = .code false) (text : String) :
    scan (front ++ text) = scan text := by
  rw [scan, String.toList_append, Context.run_append, ← scan, h, ← scan]

/-! ## Names -/

theorem isQuiet_of_mem_space_cons {name : String} (h : isIdentifier name = true) :
    ∀ c ∈ ' ' :: name.toList, Context.isQuiet c = true := by
  rw [List.forall_mem_cons]
  refine ⟨by decide, fun c hc => ?_⟩
  exact Context.isQuiet_of_isIdentifierChar (isIdentifierChar_of_mem h c hc)

theorem scan_append_space (front name : String) :
    scan (front ++ " " ++ name) = (scan front).run (' ' :: name.toList) := by
  simp [scan]

/-- A name behind a text, set off by a space, stands in code exactly if the text ends in code. -/
theorem endsInCode_append_identifier {front name : String} (h : isIdentifier name = true) :
    EndsInCode (front ++ " " ++ name) ↔ EndsInCode front := by
  rw [EndsInCode, scan_append_space, EndsInCode]
  exact Context.isCode_run_iff_of_isQuiet (isQuiet_of_mem_space_cons h) (scan front)

/-! ## Parameter lists -/

/-- An opening parenthesis can follow on any code, with blanks in between or without. -/
theorem run_code_of_head_trimLeft {cs : List Char} (h : (trimLeft cs).head? = some '(')
    (joined : Bool) : (Context.code joined).run cs = (Context.code false).run cs := by
  obtain ⟨c, rest, rfl, hc⟩ := exists_cons_of_head?_trimLeft h
  have hstep : (Context.code joined).step c = (Context.code false).step c := by
    rcases hc with hblank | rfl
    · rw [Context.step_of_isBlank hblank, Context.step_of_isBlank hblank]
    · rfl
  rw [Context.run_cons, Context.run_cons, hstep]

/-- Behind a prototype stands code exactly if behind its parameter list does. -/
theorem endsInCode_prototype_iff {returnType name text : String}
    (hreturn : EndsInCode returnType) (hname : isIdentifier name = true)
    (hopen : (trimLeft text.toList).head? = some '(') :
    EndsInCode (prototype returnType name text) ↔ EndsInCode text := by
  obtain ⟨joined, hfront⟩ := Context.exists_run_eq_code_of_isQuiet (isQuiet_of_mem_space_cons hname)
    (by simp) hreturn
  have hscan : scan (prototype returnType name text) = (Context.code joined).run text.toList := by
    rw [prototype, scan, String.toList_append, Context.run_append, ← scan, scan_append_space,
      hfront]
  rw [EndsInCode, hscan, run_code_of_head_trimLeft hopen, EndsInCode, scan]

/-- In a wrapper the opening brace follows on the prototype. -/
theorem exists_wrapper_eq_append (adapter prototype mangled : String)
    (parameters : List Parameter) :
    ∃ body, wrapper adapter prototype mangled parameters = prototype ++ " \x7b" ++ body := by
  have hbrace : " \x7b\nstatic const auto " = " \x7b" ++ "\nstatic const auto " := rfl
  rw [wrapper, hbrace]
  simp only [String.append_assoc]
  exact ⟨_, rfl⟩

namespace Definition

/-- What is appended to a parameter list stands in code unless the source itself ends the list in a
literal or a comment, or the list is followed by a comment that only the line break in front of the
body ends. The latter is the one place where the copy of a definition's head means something else
than the head does: in the source the body stands in code, in the copy the semicolon and the brace
belong to the comment. -/
theorem endsInCode_parameterList_iff {d : Definition} {source text : String}
    (h : d.parameterList source = .ok text) :
    ∃ raw list trailer, d.parameterListSpan.slice? source = some raw ∧ text = trimEnd raw ∧
      text = list ++ trailer ∧ closingParen? text = some (size list - 1) ∧
      (EndsInCode text ↔ EndsInCode raw ∧ ¬ EndsInLineComment trailer) ∧
      ∀ symbols adapter plan, d.plan source symbols adapter = .ok plan →
        plan.forwardDeclaration = .insertBefore d.declarationStart (plan.prototype ++ ";\n") ∧
        (∃ body, plan.wrapperInsertion =
          .insertAfter d.body.stop ("\n\n" ++ plan.prototype ++ " \x7b" ++ body)) ∧
        (isIdentifier d.name = true → EndsInCode d.returnType →
          (EndsInCode plan.prototype ↔ EndsInCode text)) := by
  obtain ⟨raw, hraw, htrim, hopen, hclose⟩ := parameterList_eq_ok_iff.mp h
  obtain ⟨offset, hoffset⟩ := Option.isSome_iff_exists.mp hclose
  obtain ⟨list, trailer, htext, -, hsize, hscan, -⟩ := exists_list_of_closingParen? hoffset
  refine ⟨raw, list, trailer, hraw, htrim, htext, ?_, ?_, ?_⟩
  · rw [hoffset, ← hsize, Nat.add_sub_cancel]
  · have hcomment : EndsInLineComment text ↔ EndsInLineComment trailer := by
      rw [endsInLineComment_iff, htext, scan_append_of_scan_eq hscan, endsInLineComment_iff]
    rw [← hcomment, htrim]
    exact endsInCode_trimEnd_iff raw
  · intro symbols adapter plan hplan
    obtain ⟨-, -, -, -, parameterList, hlist, rfl⟩ := plan_eq_ok_iff.mp hplan
    obtain rfl : text = parameterList := Except.ok.inj (h.symm.trans hlist)
    refine ⟨rfl, ?_, fun hname hreturn => endsInCode_prototype_iff hreturn hname hopen⟩
    obtain ⟨body, hbody⟩ := exists_wrapper_eq_append adapter
      (CachedCalls.prototype d.returnType d.name text) (mangledName d.name) d.parameters
    exact ⟨body, by simp only [planWith, hbody, String.append_assoc]⟩

/-- A comment whose line break is followed by more than blanks is kept whole. -/
theorem endsInCode_parameterList_iff_noexcept :
    let source := "int f(int x) // c\nnoexcept \x7b\x7d"
    let d : Definition := ⟨"f", "int", [⟨"x", "int"⟩], 0, 5, ⟨27, 29⟩, 1⟩
    let text := "(int x) // c\nnoexcept"
    d.parameterList source = .ok text ∧ EndsInCode text ∧
      ∃ raw list trailer, d.parameterListSpan.slice? source = some raw ∧ text = trimEnd raw ∧
        text = list ++ trailer ∧ closingParen? text = some (size list - 1) ∧
        (EndsInCode text ↔ EndsInCode raw ∧ ¬ EndsInLineComment trailer) ∧
        ∀ symbols adapter plan, d.plan source symbols adapter = .ok plan →
          plan.forwardDeclaration = .insertBefore d.declarationStart (plan.prototype ++ ";\n") ∧
          (∃ body, plan.wrapperInsertion =
            .insertAfter d.body.stop ("\n\n" ++ plan.prototype ++ " \x7b" ++ body)) ∧
          (isIdentifier d.name = true → EndsInCode d.returnType →
            (EndsInCode plan.prototype ↔ EndsInCode text)) := by
  intro source d text
  have hclose : (closingParen? text).isSome := by
    simp [text, closingParen?, afterClosing]
  have hlist : d.parameterList source = .ok text :=
    parameterList_eq_ok_iff.mpr ⟨"(int x) // c\nnoexcept ", by decide +kernel, by decide +kernel,
      by decide, hclose⟩
  exact ⟨hlist, by decide, endsInCode_parameterList_iff hlist⟩

/-- A comment between the parameter list and the body swallows what is appended, although the
source goes on with code behind it. -/
theorem endsInCode_parameterList_comment :
    let source := "int f(int x) // c\n\x7b return x; \x7d"
    let d : Definition := ⟨"f", "int", [⟨"x", "int"⟩], 0, 5, ⟨18, 31⟩, 1⟩
    d.parameterListSpan.slice? source = some "(int x) // c\n" ∧ EndsInCode "(int x) // c\n" ∧
      d.parameterList source = .ok "(int x) // c" ∧ ¬ EndsInCode "(int x) // c" ∧
      d.plan source .empty "memoize" = .ok (d.planWith "memoize" "(int x) // c") ∧
      (d.planWith "memoize" "(int x) // c").forwardDeclaration =
        .insertBefore 0 "int f(int x) // c;\n" := by
  intro source d
  have hraw : d.parameterListSpan.slice? source = some "(int x) // c\n" := by decide +kernel
  have hclose : (closingParen? "(int x) // c").isSome := by
    simp [closingParen?, afterClosing]
  have hlist : d.parameterList source = .ok "(int x) // c" :=
    parameterList_eq_ok_iff.mpr ⟨"(int x) // c\n", hraw, by decide +kernel, by decide, hclose⟩
  refine ⟨hraw, by decide, hlist, by decide, ?_, rfl⟩
  rw [plan_eq_ok_iff]
  have hbody : d.checkBody source = .ok () := by decide +kernel
  have hname : d.checkName source = .ok () := by decide +kernel
  have hfree : SymbolTable.empty.contains (mangledName d.name) = false := rfl
  exact ⟨hbody, by decide +kernel, hname, hfree, _, hlist, rfl⟩

end Definition

end CachedCalls
