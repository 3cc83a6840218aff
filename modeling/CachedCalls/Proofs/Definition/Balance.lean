/-
# Balanced parameter lists

A prototype takes over everything between the name of a function and its body:
the parameter list and behind it qualifiers, a clause such as `noexcept` with
parentheses of its own, or a return type. The check of that text looks for the
parenthesis that closes the first one and reads no further.

So the text is balanced up to that parenthesis, and whether it is balanced as a
whole depends on what follows. A body that is said to begin too early cuts the
text off inside a clause, and the check lets it pass: the prototype then opens a
parenthesis that nothing closes.
-/

import CachedCalls.Proofs.Definition.LiveText

namespace CachedCalls

open Text Lexical

namespace Definition

/-- An accepted parameter list begins with a balanced one, up to the closing parenthesis that was
looked for. The whole text, which every prototype of the function takes over, is balanced if and
only if the text behind that parenthesis is. -/
theorem balanced_parameterList_iff {d : Definition} {source text : String}
    (h : d.parameterList source = .ok text) :
    ∃ list trailer, text = list ++ trailer ∧ closingParen? text = some (size list - 1) ∧
      Balanced list ∧ (Balanced text ↔ Balanced trailer) ∧
      ∀ symbols adapter plan, d.plan source symbols adapter = .ok plan →
        plan.prototype = CachedCalls.prototype d.returnType d.name text := by
  obtain ⟨raw, -, -, -, hclose⟩ := parameterList_eq_ok_iff.mp h
  obtain ⟨offset, hoffset⟩ := Option.isSome_iff_exists.mp hclose
  obtain ⟨list, trailer, htext, -, hsize, hscan, hlist⟩ := exists_list_of_closingParen? hoffset
  refine ⟨list, trailer, htext, ?_, hlist, ?_, ?_⟩
  · rw [hoffset, ← hsize, Nat.add_sub_cancel]
  · rw [htext]
    exact balanced_append_iff hlist hscan trailer
  · intro symbols adapter plan hplan
    obtain ⟨-, -, -, -, parameterList, hparameters, rfl⟩ := plan_eq_ok_iff.mp hplan
    obtain rfl : text = parameterList := Except.ok.inj (h.symm.trans hparameters)
    rfl

/-- A clause with parentheses of its own keeps the text balanced if it is taken over whole. -/
theorem balanced_parameterList_iff_noexcept :
    let source := "int f(int x) noexcept(bool\x7b\x7d) \x7b return x; \x7d"
    let d : Definition := ⟨"f", "int", [⟨"x", "int"⟩], 0, 5, ⟨30, 43⟩, 1⟩
    let text := "(int x) noexcept(bool\x7b\x7d)"
    d.parameterList source = .ok text ∧ Balanced text ∧
      ∃ list trailer, text = list ++ trailer ∧ closingParen? text = some (size list - 1) ∧
        Balanced list ∧ (Balanced text ↔ Balanced trailer) ∧
        ∀ symbols adapter plan, d.plan source symbols adapter = .ok plan →
          plan.prototype = CachedCalls.prototype d.returnType d.name text := by
  intro source d text
  have hclose : (closingParen? text).isSome := by
    rw [isSome_closingParen?]
    decide
  have hlist : d.parameterList source = .ok text :=
    parameterList_eq_ok_iff.mpr ⟨"(int x) noexcept(bool\x7b\x7d) ", by decide +kernel,
      by decide +kernel, by decide, hclose⟩
  exact ⟨hlist, by decide, balanced_parameterList_iff hlist⟩

/-- A body that begins at the first brace behind the name cuts the same clause in two. The record
becomes a definition, its text is accepted although a parenthesis is left open, and so it is
declared. -/
theorem not_balanced_parameterList_cutOff :
    let source := "int f(int x) noexcept(bool\x7b\x7d) \x7b return x; \x7d"
    let f : TaggedFunction := ⟨"f", "int", [⟨"x", "int"⟩], 0, 5, some ⟨26, 43⟩, 1⟩
    let d : Definition := ⟨"f", "int", [⟨"x", "int"⟩], 0, 5, ⟨26, 43⟩, 1⟩
    let text := "(int x) noexcept(bool"
    f.toDefinition = .ok d ∧ d.parameterList source = .ok text ∧ ¬ Balanced text ∧
      d.plan source .empty "memoize" = .ok (d.planWith "memoize" text) ∧
      (d.planWith "memoize" text).forwardDeclaration =
        .insertBefore 0 "int f(int x) noexcept(bool;\n" := by
  intro source f d text
  have hclose : (closingParen? text).isSome := by
    rw [isSome_closingParen?]
    decide
  have hlist : d.parameterList source = .ok text :=
    parameterList_eq_ok_iff.mpr ⟨"(int x) noexcept(bool", by decide +kernel, by decide +kernel,
      by decide, hclose⟩
  refine ⟨by decide +kernel, hlist, by decide, ?_, rfl⟩
  have hbody : d.checkBody source = .ok () := by decide +kernel
  have hname : d.checkName source = .ok () := by decide +kernel
  exact plan_eq_ok_iff.mpr ⟨hbody, by decide +kernel, hname, rfl, _, hlist, rfl⟩

end Definition

end CachedCalls
