/-
# Names that are tagged more than once

Definitions of one name are turned away together, because two renamed overloads
could not share one mangled name. The names are compared after the candidates
have become definitions, so a candidate that was refused before no longer counts:
not a prototype without a body, not a member, not what a matcher has given up on.
A definition whose name was tagged a second time is therefore still wrapped, as
long as every other candidate of its name is among the refused ones.
-/

import CachedCalls.Proofs.Lexical.Closing
import CachedCalls.Proofs.SourceUnit.Exits
import CachedCalls.Proofs.Text.Word

namespace CachedCalls

/-- The candidate at place `i` is tagged under `name`. -/
def TaggedAt (candidates : List Candidate) (i : Nat) (name : String) : Prop :=
  ∃ candidate, candidates[i]? = some candidate ∧ candidate.entry.2 = name

/-- The candidate at place `i` fails before it becomes a definition. -/
def RefusedAt (candidates : List Candidate) (i : Nat) (failure : Failure) : Prop :=
  ∃ candidate, candidates[i]? = some candidate ∧ Candidate.toDefinition candidate = .error failure

section Unit

variable (source : String) (symbols : SymbolTable) (adapter : String)
  (candidates : List Candidate)

/-- A name is wrapped if a candidate is wrappable under it. -/
theorem mem_map_name_ofPlan_iff {name : String} :
    name ∈ ((survivors source symbols adapter candidates).map WrappedFunction.ofPlan).map (·.name) ↔
      ∃ i plan, WrappableAt source symbols adapter candidates i plan ∧ plan.function = name := by
  have hsurvivors (plan : Plan) : plan ∈ survivors source symbols adapter candidates ↔
      ∃ i, WrappableAt source symbols adapter candidates i plan := by
    rw [(survivors_perm_filterMap source symbols adapter candidates).mem_iff,
      mem_filterMap_iff_exists_valueAt]
    simp only [wrappableAt_iff_valueAt]
  rw [List.map_map, List.mem_map]
  constructor
  · rintro ⟨plan, hplan, hname⟩
    obtain ⟨i, hi⟩ := (hsurvivors plan).mp hplan
    exact ⟨i, plan, hi, hname⟩
  · rintro ⟨i, plan, hi, hname⟩
    exact ⟨plan, (hsurvivors plan).mpr ⟨i, hi⟩, hname⟩

variable {source symbols adapter candidates}

/-- The definition behind a wrappable candidate is the only one of its name. -/
theorem WrappableAt.exists_uniqueAt {i : Nat} {plan : Plan}
    (h : WrappableAt source symbols adapter candidates i plan) :
    ∃ d, UniqueAt candidates i d ∧ d.name = plan.function := by
  obtain ⟨d, hunique, hplan⟩ := h.planned
  obtain ⟨_, rfl⟩ := Definition.eq_planWith_of_plan hplan
  exact ⟨d, hunique, rfl⟩

/-- A candidate is tagged under the name of the definition it becomes. -/
theorem becomesAt_or_refusedAt_of_taggedAt {i : Nat} {name : String}
    (h : TaggedAt candidates i name) :
    (∃ d, BecomesAt candidates i d ∧ d.name = name) ∨
      ∃ failure, RefusedAt candidates i failure := by
  obtain ⟨candidate, hi, hname⟩ := h
  cases hdefinition : Candidate.toDefinition candidate with
  | error failure => exact Or.inr ⟨failure, candidate, hi, hdefinition⟩
  | ok d =>
      obtain ⟨f, rfl, hf⟩ :=
        Candidate.definition?_eq_some_iff.mp (Candidate.definition?_of_ok hdefinition)
      refine Or.inl ⟨d, ⟨f, hi, hf⟩, ?_⟩
      rw [(TaggedFunction.name_line_of_toDefinition hf).1]
      exact hname

theorem mem_failuresOf_of_refusedAt {i : Nat} {failure : Failure}
    (h : RefusedAt candidates i failure) :
    failure ∈ failuresOf source symbols adapter candidates := by
  obtain ⟨candidate, hi, hdefinition⟩ := h
  rw [(failuresOf_perm_filterMap source symbols adapter candidates).mem_iff, List.mem_filterMap]
  refine ⟨candidate, List.mem_of_getElem? hi, ?_⟩
  rw [exitOf, hdefinition]
  rfl

/-- Whatever else is tagged under the name of a wrappable candidate is refused. -/
theorem WrappableAt.exists_refusedAt {i j : Nat} {plan : Plan}
    (h : WrappableAt source symbols adapter candidates i plan) (hj : j ≠ i)
    (htagged : TaggedAt candidates j plan.function) :
    ∃ failure ∈ failuresOf source symbols adapter candidates, RefusedAt candidates j failure := by
  obtain ⟨d, hd, hname⟩ := h.exists_uniqueAt
  rcases becomesAt_or_refusedAt_of_taggedAt htagged with ⟨e, he, hename⟩ | ⟨failure, hrefused⟩
  · exact absurd (hename.trans hname.symm) (hd.alone j e hj he)
  · exact ⟨failure, mem_failuresOf_of_refusedAt hrefused, hrefused⟩

variable (source symbols adapter candidates)

/-- Which names are wrapped. No name is that two candidates become definitions
of. Any other name is wrapped exactly when one candidate of it is wrappable, and
then every other candidate tagged under that name was refused before it became a
definition and is reported so. -/
theorem wrapUnit_wraps_name_iff :
    ∃ outcome, wrapUnit source symbols adapter candidates = .ok outcome ∧
      (∀ i j d e, i ≠ j → BecomesAt candidates i d → BecomesAt candidates j e → e.name = d.name →
        d.name ∉ outcome.wrapped.map (·.name)) ∧
      ∀ name, name ∈ outcome.wrapped.map (·.name) ↔
        ∃ i plan, WrappableAt source symbols adapter candidates i plan ∧ plan.function = name ∧
          ∀ j, j ≠ i → TaggedAt candidates j name →
            ∃ failure ∈ outcome.failures, RefusedAt candidates j failure := by
  obtain ⟨text, -, -, hrun⟩ := wrapUnit_eq_ok source symbols adapter candidates
  refine ⟨_, hrun, fun i j d e hij hd he hname => ?_, fun name => ?_⟩
  · rw [mem_map_name_ofPlan_iff]
    rintro ⟨k, plan, hplan, hfunction⟩
    obtain ⟨other, hother, hotherName⟩ := hplan.exists_uniqueAt
    have hsame : d.name = other.name := hfunction.symm.trans hotherName.symm
    -- One of the two places is not that of the wrapped function.
    rcases ne_or_eq i k with hik | rfl
    · exact hother.alone i d hik hd hsame
    · exact hother.alone j e hij.symm he (hname.trans hsame)
  · rw [mem_map_name_ofPlan_iff]
    constructor
    · rintro ⟨i, plan, hplan, rfl⟩
      exact ⟨i, plan, hplan, rfl, fun j hj htagged => hplan.exists_refusedAt hj htagged⟩
    · rintro ⟨i, plan, hplan, hfunction, -⟩
      exact ⟨i, plan, hplan, hfunction⟩

end Unit

/-- A prototype and a definition of one name, both tagged. The definition is wrapped. -/
theorem wrapUnit_wraps_name_tagged_twice :
    let source := "int f(int x);\nint f(int x) \x7b return x; \x7d"
    let candidates : List Candidate := [
      .ok ⟨"f", "int", [⟨"x", "int"⟩], 0, 5, none, 1⟩,
      .ok ⟨"f", "int", [⟨"x", "int"⟩], 14, 19, some ⟨27, 40⟩, 2⟩]
    TaggedAt candidates 0 "f" ∧ TaggedAt candidates 1 "f" ∧
      ∃ outcome, wrapUnit source (.scan source) "memoize" candidates = .ok outcome ∧
        outcome.wrapped = [⟨"f", "f__original__", 2⟩] ∧
        outcome.failures = [⟨1, "f", .missingBody⟩] := by
  intro source candidates
  let d : Definition := ⟨"f", "int", [⟨"x", "int"⟩], 14, 19, ⟨27, 40⟩, 2⟩
  have haccept : accept candidates = ([d], [⟨1, "f", .missingBody⟩]) := by decide +kernel
  have hclose : (Lexical.closingParen? "(int x)").isSome := by
    rw [Lexical.isSome_closingParen?]
    decide
  have hlist : d.parameterList source = .ok "(int x)" :=
    Definition.parameterList_eq_ok_iff.mpr
      ⟨"(int x) ", by decide +kernel, by decide +kernel, by decide, hclose⟩
  have hfree : (SymbolTable.scan source).contains (mangledName d.name) = false := by
    rw [← Bool.not_eq_true, SymbolTable.contains_scan]
    decide +kernel
  have hplan : d.plan source (.scan source) "memoize" = .ok (d.planWith "memoize" "(int x)") :=
    Definition.plan_eq_ok_iff.mpr
      ⟨by decide +kernel, by decide +kernel, by decide +kernel, hfree, _, hlist, rfl⟩
  have hplans : planAll source (.scan source) "memoize" (accept candidates).1 =
      ([d.planWith "memoize" "(int x)"], []) := by
    rw [haccept, planAll, List.map_singleton, hplan]
    rfl
  have hoverlaps : rejectOverlaps [d.planWith "memoize" "(int x)"] =
      ([d.planWith "memoize" "(int x)"], []) := by
    rw [rejectOverlaps, List.mergeSort_singleton]
    rfl
  obtain ⟨text, -, -, hrun⟩ := wrapUnit_eq_ok source (.scan source) "memoize" candidates
  refine ⟨⟨_, rfl, rfl⟩, ⟨_, rfl, rfl⟩, _, hrun, ?_, ?_⟩
  · rw [survivors, plansOf, hplans, hoverlaps]
    rfl
  · rw [failuresOf, plansOf, hplans, hoverlaps, haccept]
    exact List.mergeSort_singleton _

end CachedCalls
