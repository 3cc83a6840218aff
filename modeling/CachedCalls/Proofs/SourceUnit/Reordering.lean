/-
# Candidates may arrive in any order

A unit is decided by counting names and comparing footprints, and neither looks
at the order of the candidates. Only the plans are sorted, with a comparison
under which different plans can tie. Plans that tie have the same footprint and
share its bytes, so all of them are dropped, whichever comes first; what
survives is in a strict order and determined by its members. The order of the
candidates is left to decide which neighbour an overlap is blamed on, and the
order of failures that agree in line and name.
-/

import CachedCalls.Proofs.SourceUnit.Exits

namespace CachedCalls

/-- What a failure says about its function, without the details of the cause. -/
def Failure.summary (failure : Failure) : Nat × String × String :=
  (failure.line, failure.rejection.function, failure.rejection.cause.kind)

section Unit

variable (source : String) (symbols : SymbolTable) (adapter : String)
  {candidates reordered : List Candidate} (h : candidates.Perm reordered)
include h

theorem planned?_perm :
    planned? source symbols adapter candidates = planned? source symbols adapter reordered := by
  funext candidate
  simp only [planned?, isOverloaded_definitionsOf_perm h]

theorem plansOf_perm :
    (plansOf source symbols adapter candidates).Perm
      (plansOf source symbols adapter reordered) := by
  rw [plansOf_eq_filterMap, plansOf_eq_filterMap, planned?_perm source symbols adapter h]
  exact h.filterMap _

/-- The same plans survive, in the same order. -/
theorem survivors_eq_of_perm :
    survivors source symbols adapter candidates = survivors source symbols adapter reordered := by
  have hplans := plansOf_perm source symbols adapter h
  refine eq_of_pairwise_of_mem_iff (fun _ _ => Nat.lt_asymm)
    (pairwise_start_survivors source symbols adapter candidates)
    (pairwise_start_survivors source symbols adapter reordered) fun plan => ?_
  rw [survivors, survivors, rejectOverlaps_fst nonempty_of_mem_plansOf,
    rejectOverlaps_fst nonempty_of_mem_plansOf, List.mem_filter, List.mem_filter,
    List.mem_mergeSort, List.mem_mergeSort, hplans.mem_iff, Plan.isAlone_perm hplans]

/-- A candidate leaves by the same kind of exit. Only the rival of a plan may be
another one. -/
theorem summary_exitOf_perm (candidate : Candidate) :
    (exitOf source symbols adapter candidates candidate).failure?.map Failure.summary =
      (exitOf source symbols adapter reordered candidate).failure?.map Failure.summary := by
  unfold exitOf
  cases Candidate.toDefinition candidate with
  | error failure => rfl
  | ok d =>
      dsimp only
      rw [isOverloaded_definitionsOf_perm h]
      cases isOverloaded (definitionsOf reordered) d.name with
      | true => rfl
      | false =>
          cases d.plan source symbols adapter with
          | error rejection => rfl
          | ok plan =>
              have hrival := Plan.isSome_rival?_perm (plansOf_perm source symbols adapter h) plan
              dsimp only
              cases hfirst : Plan.rival? (plansOf source symbols adapter candidates) plan with
              | none =>
                  cases hsecond : Plan.rival? (plansOf source symbols adapter reordered) plan with
                  | none => rfl
                  | some other => simp [hfirst, hsecond] at hrival
              | some first =>
                  cases hsecond : Plan.rival? (plansOf source symbols adapter reordered) plan with
                  | none => simp [hfirst, hsecond] at hrival
                  | some second => rfl

theorem summary_failuresOf_perm :
    ((failuresOf source symbols adapter candidates).map Failure.summary).Perm
      ((failuresOf source symbols adapter reordered).map Failure.summary) := by
  have hfirst := (failuresOf_perm_filterMap source symbols adapter candidates).map Failure.summary
  have hsecond := (failuresOf_perm_filterMap source symbols adapter reordered).map Failure.summary
  rw [List.map_filterMap] at hfirst hsecond
  simp only [summary_exitOf_perm source symbols adapter h] at hfirst
  exact hfirst.trans ((h.filterMap _).trans hsecond.symm)

/-- The order of the candidates does not matter. Any two orders give the same
patched text, the same edits and the same wrapped functions in the same order,
and failures of the same lines, names and kinds. -/
theorem wrapUnit_perm :
    ∃ (outcome : UnitOutcome) (failures failures' : List Failure),
      wrapUnit source symbols adapter candidates = .ok { outcome with failures := failures } ∧
      wrapUnit source symbols adapter reordered = .ok { outcome with failures := failures' } ∧
      (failures.map Failure.summary).Perm (failures'.map Failure.summary) := by
  obtain ⟨outcome, hrun, hrun'⟩ :=
    exists_outcome_of_survivors_eq (survivors_eq_of_perm source symbols adapter h).symm
  exact ⟨outcome, _, _, hrun, hrun', summary_failuresOf_perm source symbols adapter h⟩

end Unit

/-- A definition inside the body of another one, supplied in both orders. -/
theorem wrapUnit_perm_nested :
    let source := "int f()\x7bint g()\x7b\x7d\x7d"
    let f : Candidate := .ok ⟨"f", "int", [], 0, 5, some ⟨7, 18⟩, 1⟩
    let g : Candidate := .ok ⟨"g", "int", [], 8, 13, some ⟨15, 17⟩, 1⟩
    List.Perm [f, g] [g, f] ∧
      ∃ (outcome : UnitOutcome) (failures failures' : List Failure),
        wrapUnit source .empty "memoize" [f, g] = .ok { outcome with failures := failures } ∧
        wrapUnit source .empty "memoize" [g, f] = .ok { outcome with failures := failures' } ∧
        (failures.map Failure.summary).Perm (failures'.map Failure.summary) := by
  intro source f g
  have hperm : List.Perm [f, g] [g, f] := .swap g f []
  exact ⟨hperm, wrapUnit_perm source .empty "memoize" hperm⟩

end CachedCalls
