/-
# The return type in front of a new name

A function found in a syntax tree has as its return type whatever stands between
the start of its declaration and its name. Renaming puts a new name behind that
text, and so does every prototype. The text is trimmed where the function is
found and again where it becomes a definition, which comes to trimming it once.

As for a parameter list, trimming does no harm unless the text ends in a comment
that runs to the end of its line. The source then has the name on the next line,
while the new name lands in the comment.

Nothing else is lost by a rename. The bytes it replaces are those of the return
type and the name with blanks in front of each, whatever spans the tree has.
-/

import CachedCalls.Proofs.Definition.LiveText
import CachedCalls.Proofs.Discovery.Declarators

namespace CachedCalls

open Text Lexical

namespace Tree

/-! ## What a record takes from the tree -/

/-- A record takes its offsets and texts from three nodes: the one at which the declaration begins,
the one that names the function and the body. -/
structure TakenFrom (source : String) (start name body : Tree) (f : TaggedFunction) : Prop where
  name_eq : f.name = name.text source
  declarationStart_eq : f.declarationStart = start.span.start
  nameEnd_eq : f.nameEnd = name.span.stop
  body_eq : f.body = some body.span
  returnType_eq : f.returnType =
    trimEnd ((Span.slice? ⟨start.span.start, name.span.start⟩ source).getD "")

/-- The three nodes play these roles in the definition that a record was made from. -/
theorem exists_takenFrom_of_mem_candidates {tree : Tree} {source marker : String}
    {f : TaggedFunction} (h : .ok f ∈ tree.candidates source marker) :
    ∃ place ∈ tree.nodes, ∃ start function name body : Tree,
      place.declarationStart? = some start ∧ place.Declares function name ∧
        place.child? "body" = some body ∧ TakenFrom source start name body f := by
  rw [candidates, List.mem_filterMap] at h
  obtain ⟨⟨parent, place⟩, hmem, hplace⟩ := h
  refine ⟨place, List.mem_map.mpr ⟨_, hmem, rfl⟩, ?_⟩
  obtain ⟨tags, hdescribe⟩ := exists_describe?_of_candidate? hplace
  obtain ⟨function, name, start, hdeclares, hstart, hfail | hmatch⟩ := exists_of_describe? hdescribe
  · obtain ⟨cause, hfail⟩ := hfail
    cases hfail
  · obtain ⟨body, parameters, hdefinition, hrecord⟩ := hmatch
    obtain ⟨-, hbody, -⟩ := of_describeDefinition_eq_ok hdefinition
    cases hrecord
    exact ⟨start, function, name, body, hstart, hdeclares, hbody, rfl, rfl, rfl, rfl, rfl⟩

/-- A node whose text is not empty covers that text. -/
theorem slice?_of_text {tree : Tree} {source : String} (h : tree.text source ≠ "") :
    tree.span.slice? source = some (tree.text source) := by
  rw [text] at h ⊢
  cases hslice : tree.span.slice? source with
  | none => simp [hslice] at h
  | some text => rfl

/-- A plain name was read from the source, where its node says. -/
theorem TakenFrom.slice?_name {source : String} {start name body : Tree} {f : TaggedFunction}
    (h : TakenFrom source start name body f) (hidentifier : isIdentifier f.name = true) :
    name.span.slice? source = some f.name := by
  have hnonempty := ne_empty_of_isIdentifier hidentifier
  rw [h.name_eq] at hnonempty ⊢
  exact slice?_of_text hnonempty

/-- A function found in a tree that becomes a definition has its name where its record says, and
its return type is the trimmed text in front of the name. -/
theorem exists_slices_of_mem_candidates {tree : Tree} {source marker : String}
    {f : TaggedFunction} {d : Definition} (hf : .ok f ∈ tree.candidates source marker)
    (hd : f.toDefinition = .ok d) :
    ∃ raw, Span.slice? ⟨d.declarationStart, d.nameEnd - size d.name⟩ source = some raw ∧
      Span.slice? ⟨d.nameEnd - size d.name, d.nameEnd⟩ source = some d.name ∧
      d.returnType = trim raw := by
  obtain ⟨-, -, start, -, name, bodyNode, -, -, -, htaken⟩ := exists_takenFrom_of_mem_candidates hf
  obtain ⟨body, -, hidentifier, -, -, -, -, hnonempty, -, -, rfl⟩ :=
    TaggedFunction.toDefinition_eq_ok_iff.mp hd
  -- Neither the name nor the return type is empty, so both were read from the source.
  have hslice := htaken.slice?_name hidentifier
  obtain ⟨-, hstart, hend, -, hreturn⟩ := htaken
  have hfirst : f.nameEnd - size f.name = name.span.start := by
    have hsize := Span.size_of_slice? hslice
    omega
  cases hraw : Span.slice? ⟨start.span.start, name.span.start⟩ source with
  | none =>
      rw [hraw] at hreturn
      rw [hreturn] at hnonempty
      exact absurd hnonempty (by decide)
  | some raw =>
      rw [hraw, Option.getD_some] at hreturn
      refine ⟨raw, ?_, ?_, ?_⟩
      · show Span.slice? ⟨f.declarationStart, f.nameEnd - size f.name⟩ source = some raw
        rw [hfirst, hstart]
        exact hraw
      · show Span.slice? ⟨f.nameEnd - size f.name, f.nameEnd⟩ source = some f.name
        rw [hfirst, hend]
        exact hslice
      · rw [TaggedFunction.definitionWith, hreturn, trim_trimEnd]

/-! ## The name behind the return type -/

/-- The name of a renamed function, and that of its prototype, stands in code unless the source
itself has the old name in a literal or a comment, or the return type ends in a comment that only a
line break in front of the name ends. -/
theorem endsInCode_returnType_iff {tree : Tree} {source marker : String} {f : TaggedFunction}
    {d : Definition} (hf : .ok f ∈ tree.candidates source marker) (hd : f.toDefinition = .ok d) :
    ∃ raw, Span.slice? ⟨d.declarationStart, d.nameEnd - size d.name⟩ source = some raw ∧
      Span.slice? ⟨d.nameEnd - size d.name, d.nameEnd⟩ source = some d.name ∧
      d.returnType = trim raw ∧
      (EndsInCode d.returnType ↔ EndsInCode raw ∧ ¬ EndsInLineComment d.returnType) ∧
      ∀ symbols adapter plan, d.plan source symbols adapter = .ok plan →
        plan.rename = .replace d.renameSpan (d.returnType ++ " " ++ plan.mangledName) ∧
        (EndsInCode (d.returnType ++ " " ++ plan.mangledName) ↔ EndsInCode d.returnType) ∧
        (∃ parameterList, plan.prototype = d.returnType ++ " " ++ d.name ++ parameterList) ∧
        (EndsInCode (d.returnType ++ " " ++ d.name) ↔ EndsInCode d.returnType) := by
  obtain ⟨raw, hraw, hname, hreturn⟩ := exists_slices_of_mem_candidates hf hd
  refine ⟨raw, hraw, hname, hreturn, ?_, ?_⟩
  · rw [hreturn]
    exact endsInCode_trim_iff raw
  · intro symbols adapter plan hplan
    obtain ⟨parameterList, rfl⟩ := Definition.eq_planWith_of_plan hplan
    obtain ⟨body, -, hidentifier, -, -, -, -, -, -, -, rfl⟩ :=
      TaggedFunction.toDefinition_eq_ok_iff.mp hd
    have hmangled := isIdentifier_mangledName hidentifier
    exact ⟨rfl, endsInCode_append_identifier hmangled, ⟨parameterList, rfl⟩,
      endsInCode_append_identifier hidentifier⟩

/-- The syntax of a tagged function without parameters whose name stands on a line of its own,
behind a return type of three bytes and a comment of four. -/
def commentedFunction : Tree :=
  let leaf (kind : String) (field : Option String) (start stop : Nat) : Tree :=
    node ⟨kind, field, ⟨start, stop⟩, true, false⟩ []
  let tag := node ⟨"attribute", none, ⟨2, 9⟩, true, false⟩
    [leaf "identifier" (some "name") 2 9]
  let declarator := node ⟨"function_declarator", some "declarator", ⟨21, 24⟩, true, false⟩
    [leaf "identifier" (some "declarator") 21 22, leaf "parameter_list" (some "parameters") 22 24]
  let definition := node ⟨"function_definition", none, ⟨0, 27⟩, true, false⟩
    [node ⟨"attribute_declaration", none, ⟨0, 11⟩, true, false⟩ [tag],
     leaf "primitive_type" (some "type") 12 15, leaf "comment" none 16 20, declarator,
     leaf "compound_statement" (some "body") 25 27]
  node ⟨"translation_unit", none, ⟨0, 27⟩, true, false⟩ [definition]

/-- A comment with a delimiter of its own keeps it. -/
theorem endsInCode_returnType_iff_delimited :
    let source := "[[memoize]] int /**/\nf() \x7b\x7d"
    let f : TaggedFunction := ⟨"f", "int /**/", [], 12, 22, some ⟨25, 27⟩, 1⟩
    let d : Definition := ⟨"f", "int /**/", [], 12, 22, ⟨25, 27⟩, 1⟩
    .ok f ∈ commentedFunction.candidates source "memoize" ∧ f.toDefinition = .ok d ∧
      EndsInCode d.returnType ∧
      ∃ raw, Span.slice? ⟨d.declarationStart, d.nameEnd - size d.name⟩ source = some raw ∧
        Span.slice? ⟨d.nameEnd - size d.name, d.nameEnd⟩ source = some d.name ∧
        d.returnType = trim raw ∧
        (EndsInCode d.returnType ↔ EndsInCode raw ∧ ¬ EndsInLineComment d.returnType) ∧
        ∀ symbols adapter plan, d.plan source symbols adapter = .ok plan →
          plan.rename = .replace d.renameSpan (d.returnType ++ " " ++ plan.mangledName) ∧
          (EndsInCode (d.returnType ++ " " ++ plan.mangledName) ↔ EndsInCode d.returnType) ∧
          (∃ parameterList, plan.prototype = d.returnType ++ " " ++ d.name ++ parameterList) ∧
          (EndsInCode (d.returnType ++ " " ++ d.name) ↔ EndsInCode d.returnType) := by
  intro source f d
  have hf : .ok f ∈ commentedFunction.candidates source "memoize" := by decide +kernel
  have hd : f.toDefinition = .ok d := by decide +kernel
  exact ⟨hf, hd, by decide, endsInCode_returnType_iff hf hd⟩

/-- A comment that its line break ends loses it, and the new name becomes part of the comment. -/
theorem endsInCode_returnType_comment :
    let source := "[[memoize]] int // c\nf() \x7b\x7d"
    let f : TaggedFunction := ⟨"f", "int // c", [], 12, 22, some ⟨25, 27⟩, 1⟩
    let d : Definition := ⟨"f", "int // c", [], 12, 22, ⟨25, 27⟩, 1⟩
    .ok f ∈ commentedFunction.candidates source "memoize" ∧ f.toDefinition = .ok d ∧
      Span.slice? ⟨12, 21⟩ source = some "int // c\n" ∧ EndsInCode "int // c\n" ∧
      ¬ EndsInCode d.returnType ∧
      (d.planRename source .empty).map Rename.edit =
        .ok (.replace ⟨12, 22⟩ "int // c f__original__") := by
  intro source f d
  have hf : .ok f ∈ commentedFunction.candidates source "memoize" := by decide +kernel
  have hd : f.toDefinition = .ok d := by decide +kernel
  have hname : d.checkName source = .ok () := by decide +kernel
  refine ⟨hf, hd, by decide +kernel, by decide, by decide, ?_⟩
  rw [Definition.planRename_eq_ok_iff.mpr ⟨hname, rfl, rfl⟩]
  rfl

/-! ## The text a rename takes away -/

/-- A rename of a function found in a tree takes away its return type and its name, with blanks in
front of each, and writes both back. Whatever spans the nodes have, no other text is lost: a record
that is off by anything but blanks is rejected on the way. -/
theorem renamed_text_eq_of_plan {tree : Tree} {source marker adapter : String} {symbols : SymbolTable}
    {f : TaggedFunction} {d : Definition} {plan : Plan}
    (hf : .ok f ∈ tree.candidates source marker) (hd : f.toDefinition = .ok d)
    (hplan : d.plan source symbols adapter = .ok plan) :
    ∃ before between : String, AllBlank before.toList ∧ AllBlank between.toList ∧
      Span.slice? ⟨d.declarationStart, d.nameEnd⟩ source =
        some (before ++ d.returnType ++ between ++ d.name) ∧
      plan.rename = .replace ⟨d.declarationStart, d.nameEnd⟩
        (d.returnType ++ " " ++ d.name ++ "__original__") := by
  obtain ⟨raw, hraw, hname, hreturn⟩ := exists_slices_of_mem_candidates hf hd
  obtain ⟨before, between, hbefore, hbetween, hparts⟩ := exists_trim_append raw
  obtain ⟨parameterList, rfl⟩ := Definition.eq_planWith_of_plan hplan
  have hsplit : raw = String.ofList before ++ d.returnType ++ String.ofList between := by
    rw [← String.toList_inj, hparts, hreturn]
    simp
  refine ⟨String.ofList before, String.ofList between, by simpa using hbefore,
    by simpa using hbetween, ?_, ?_⟩
  · rw [Span.slice?_append hraw hname, hsplit]
  · simp [Definition.planWith, Definition.renameSpan, mangledName, mangleSuffix,
      String.append_assoc]

/-- A line break in front of the name is taken away, and the comment in front of it is kept. -/
theorem renamed_text_eq_of_plan_delimited :
    let source := "[[memoize]] int /**/\nf() \x7b\x7d"
    let f : TaggedFunction := ⟨"f", "int /**/", [], 12, 22, some ⟨25, 27⟩, 1⟩
    let d : Definition := ⟨"f", "int /**/", [], 12, 22, ⟨25, 27⟩, 1⟩
    .ok f ∈ commentedFunction.candidates source "memoize" ∧ f.toDefinition = .ok d ∧
      ∃ plan, d.plan source .empty "memoize" = .ok plan ∧
        ∃ before between : String, AllBlank before.toList ∧ AllBlank between.toList ∧
          Span.slice? ⟨d.declarationStart, d.nameEnd⟩ source =
            some (before ++ d.returnType ++ between ++ d.name) ∧
          plan.rename = .replace ⟨d.declarationStart, d.nameEnd⟩
            (d.returnType ++ " " ++ d.name ++ "__original__") := by
  intro source f d
  have hf : .ok f ∈ commentedFunction.candidates source "memoize" := by decide +kernel
  have hd : f.toDefinition = .ok d := by decide +kernel
  have hplan : d.plan source .empty "memoize" = .ok (d.planWith "memoize" "()") :=
    Definition.plan_eq_ok_iff.mpr
      ⟨by decide +kernel, rfl, by decide +kernel, rfl, "()", by decide +kernel, rfl⟩
  exact ⟨hf, hd, _, hplan, renamed_text_eq_of_plan hf hd hplan⟩

end Tree

end CachedCalls
