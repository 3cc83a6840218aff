/-
# Failures are isolated

Most failures concern one candidate only. This module compares two runs, with
and without such a candidate: the patched text, the edits and the wrapped
functions are the same, and the report loses that one failure. A candidate could
be felt by the others in two ways, through its name while names are compared and
through its footprint while overlaps are looked for. One that never becomes a
definition does neither, and one that cannot be planned was found to have a name
of its own and never shows a footprint. Overloads and overlaps are different,
because there the other party fails as well.
-/

import CachedCalls.Proofs.SourceUnit.Exits

namespace CachedCalls

section Unit

variable (source : String) (symbols : SymbolTable) (adapter : String)
  (candidates : List Candidate)

/-- A candidate that the others of its list cannot feel: it is not planned, and
it is no definition of a name that another one has. -/
structure UnfeltAt (i : Nat) (candidate : Candidate) : Prop where
  atPlace : candidates[i]? = some candidate
  notPlanned : planned? source symbols adapter candidates candidate = none
  nameApart : ∀ d, Candidate.definition? candidate = some d →
    ∀ j e, j ≠ i → BecomesAt candidates j e → e.name ≠ d.name

variable {source symbols adapter candidates}

/-- A definition of the list that is not overloaded shares its name with none. -/
theorem name_ne_of_not_isOverloaded {i : Nat} {candidate : Candidate} {d : Definition}
    (hi : candidates[i]? = some candidate) (hd : Candidate.definition? candidate = some d)
    (hname : isOverloaded (definitionsOf candidates) d.name = false) :
    ∀ j e, j ≠ i → BecomesAt candidates j e → e.name ≠ d.name := by
  have hbecomes : BecomesAt candidates i d := becomesAt_iff_valueAt.mpr ⟨candidate, hi, hd⟩
  exact (uniqueAt_iff.mpr ⟨hbecomes, hname⟩).alone

/-- Every failure other than an overload or an overlap, and every failure of a
matcher, goes unfelt. -/
theorem exists_unfeltAt_of_failsAt {i : Nat} {failure : Failure}
    (hfails : FailsAt source symbols adapter candidates i failure)
    (halone : (∃ reported, candidates[i]? = some (.error reported)) ∨
      failure.rejection.cause.kind ≠ "overloaded_name" ∧
        failure.rejection.cause.kind ≠ "overlapping_match") :
    ∃ candidate, UnfeltAt source symbols adapter candidates i candidate := by
  obtain ⟨candidate, hi, hfailure⟩ := hfails
  have hmatched {d : Definition} (hd : Candidate.toDefinition candidate = .ok d) :
      failure.rejection.cause.kind ≠ "overloaded_name" ∧
        failure.rejection.cause.kind ≠ "overlapping_match" := by
    rcases halone with ⟨reported, herror⟩ | hkind
    · rw [hi, Option.some.injEq] at herror
      rw [herror] at hd
      cases hd
    · exact hkind
  have hleaves := leaves_exitOf source symbols adapter candidates candidate
  generalize exitOf source symbols adapter candidates candidate = exit at hfailure hleaves
  cases hleaves with
  | refused hd =>
      have hnone := Candidate.definition?_of_error hd
      exact ⟨candidate, hi, by rw [planned?, hnone]; rfl, by simp [hnone]⟩
  | overloaded hd _ =>
      cases hfailure
      exact absurd rfl (hmatched hd).1
  | @unplanned d rejection hd hname hplan =>
      have hsome := Candidate.definition?_of_ok hd
      refine ⟨candidate, hi, by rw [planned?, hsome, Option.bind_some, hname, hplan]; rfl, ?_⟩
      intro e he
      obtain rfl : d = e := Option.some.inj (hsome.symm.trans he)
      exact name_ne_of_not_isOverloaded hi hsome hname
  | overlapping hd _ _ _ =>
      cases hfailure
      exact absurd rfl (hmatched hd).2
  | wrapped hd _ _ _ => cases hfailure

/-! ## Two runs -/

section TwoRuns

variable {i : Nat} {candidate : Candidate}
  (h : UnfeltAt source symbols adapter candidates i candidate)
include h

theorem UnfeltAt.name_ne_of_mem {other : Candidate} {d e : Definition}
    (hother : other ∈ candidates.eraseIdx i) (he : Candidate.definition? other = some e)
    (hd : Candidate.definition? candidate = some d) : d.name ≠ e.name := by
  obtain ⟨j, hj⟩ := List.mem_iff_getElem?.mp hother
  rw [getElem?_eraseIdx_eq] at hj
  have hplace : placeBefore i j ≠ i := exists_placeBefore_eq_iff.mp ⟨j, rfl⟩
  exact (h.nameApart d hd _ e hplace (becomesAt_iff_valueAt.mpr ⟨other, hj, he⟩)).symm

/-- Names are compared as before. -/
theorem UnfeltAt.isOverloaded_eraseIdx {other : Candidate} {e : Definition}
    (hother : other ∈ candidates.eraseIdx i) (he : Candidate.definition? other = some e) :
    isOverloaded (definitionsOf (candidates.eraseIdx i)) e.name =
      isOverloaded (definitionsOf candidates) e.name := by
  obtain ⟨hlt, hget⟩ := List.getElem?_eq_some_iff.mp h.atPlace
  have hperm : (candidate :: candidates.eraseIdx i).Perm candidates := by
    rw [← hget]
    exact List.getElem_cons_eraseIdx_perm hlt
  rw [← isOverloaded_definitionsOf_perm hperm]
  unfold isOverloaded definitionsOf
  cases hd : Candidate.definition? candidate with
  | none => rw [List.filterMap_cons_none hd]
  | some d =>
      have hne := h.name_ne_of_mem hother he hd
      rw [List.filterMap_cons_some hd, List.countP_cons_of_neg (by simpa using hne)]

theorem UnfeltAt.planned?_eraseIdx {other : Candidate} (hother : other ∈ candidates.eraseIdx i) :
    planned? source symbols adapter (candidates.eraseIdx i) other =
      planned? source symbols adapter candidates other := by
  rw [planned?, planned?]
  cases he : Candidate.definition? other with
  | none => rfl
  | some e => rw [Option.bind_some, Option.bind_some, h.isOverloaded_eraseIdx hother he]

/-- The same plans are compared for overlaps. -/
theorem UnfeltAt.plansOf_eraseIdx :
    plansOf source symbols adapter (candidates.eraseIdx i) =
      plansOf source symbols adapter candidates := by
  rw [plansOf_eq_filterMap, plansOf_eq_filterMap,
    List.filterMap_congr fun other hother => h.planned?_eraseIdx hother]
  exact filterMap_eraseIdx_of_eq_none h.atPlace h.notPlanned

/-- Every other candidate leaves by the same exit. -/
theorem UnfeltAt.exitOf_eraseIdx {other : Candidate} (hother : other ∈ candidates.eraseIdx i) :
    exitOf source symbols adapter (candidates.eraseIdx i) other =
      exitOf source symbols adapter candidates other := by
  rw [exitOf, exitOf, h.plansOf_eraseIdx]
  cases hd : Candidate.toDefinition other with
  | error failure => rfl
  | ok e =>
      dsimp only
      rw [h.isOverloaded_eraseIdx hother (Candidate.definition?_of_ok hd)]

theorem UnfeltAt.failsAt_eraseIdx_iff {j : Nat} {failure : Failure} :
    FailsAt source symbols adapter (candidates.eraseIdx i) j failure ↔
      FailsAt source symbols adapter candidates (placeBefore i j) failure := by
  unfold FailsAt
  rw [← getElem?_eraseIdx_eq]
  apply exists_congr
  intro other
  rw [and_congr_right_iff]
  intro hj
  rw [h.exitOf_eraseIdx (List.mem_of_getElem? hj)]

theorem UnfeltAt.gateAt_eraseIdx (j : Nat) :
    gateAt source symbols adapter (candidates.eraseIdx i) j =
      gateAt source symbols adapter candidates (placeBefore i j) := by
  rw [gateAt, gateAt, ← getElem?_eraseIdx_eq]
  cases hj : (candidates.eraseIdx i)[j]? with
  | none => rfl
  | some other =>
      rw [Option.map_some, Option.map_some, h.exitOf_eraseIdx (List.mem_of_getElem? hj)]

theorem UnfeltAt.reportedBefore_eraseIdx_iff {f g : Failure} {j k : Nat} :
    ReportedBefore source symbols adapter (candidates.eraseIdx i) (f, j) (g, k) ↔
      ReportedBefore source symbols adapter candidates (f, placeBefore i j)
        (g, placeBefore i k) := by
  simp only [ReportedBefore, FoundBefore, h.gateAt_eraseIdx, placeBefore_lt_iff]

/-- The report of the shorter list is the report of the longer one without the
entry of the candidate that was left out. -/
theorem UnfeltAt.map_report_eraseIdx {failure : Failure} {before after rest : List (Failure × Nat)}
    (hreport : IsReport source symbols adapter candidates (before ++ (failure, i) :: after))
    (hrest : IsReport source symbols adapter (candidates.eraseIdx i) rest) :
    rest.map (Prod.map id (placeBefore i)) = before ++ after := by
  have hsublist : (before ++ after).Sublist (before ++ (failure, i) :: after) :=
    (List.sublist_cons_self _ after).append_left before
  refine eq_of_pairwise_of_mem_iff (R := ReportedBefore source symbols adapter candidates)
    reportedBefore_asymm ?_ ?_ ?_
  · rw [List.pairwise_map]
    exact hrest.ascending.imp h.reportedBefore_eraseIdx_iff.mp
  · exact hreport.ascending.sublist hsublist
  · rintro ⟨g, k⟩
    have hrestMem : (g, k) ∈ rest.map (Prod.map id (placeBefore i)) ↔
        FailsAt source symbols adapter candidates k g ∧ k ≠ i := by
      rw [List.mem_map, ← exists_placeBefore_eq_iff]
      constructor
      · rintro ⟨⟨f, j⟩, hmem, heq⟩
        obtain ⟨rfl, rfl⟩ := Prod.mk.inj heq
        exact ⟨h.failsAt_eraseIdx_iff.mp ((hrest.mem_iff f j).mp hmem), j, rfl⟩
      · rintro ⟨hfails, j, rfl⟩
        exact ⟨(g, j), (hrest.mem_iff g j).mpr (h.failsAt_eraseIdx_iff.mpr hfails), rfl⟩
    rw [hrestMem, ← hreport.mem_iff]
    constructor
    · rintro ⟨hmem, hne⟩
      simpa [hne] using hmem
    · intro hmem
      exact ⟨hsublist.subset hmem, hreport.place_ne hmem⟩

end TwoRuns

/-- A failure other than an overload or an overlap, or any failure of a matcher,
is isolated. Without its candidate, a unit has the same patched text, the same
edits and the same wrapped functions, and the report lacks the entry of that
candidate and nothing else. -/
theorem wrapUnit_eraseIdx_of_failsAt {i : Nat} {failure : Failure}
    (hfails : FailsAt source symbols adapter candidates i failure)
    (halone : (∃ reported, candidates[i]? = some (.error reported)) ∨
      failure.rejection.cause.kind ≠ "overloaded_name" ∧
        failure.rejection.cause.kind ≠ "overlapping_match") :
    ∃ (outcome : UnitOutcome) (before after : List (Failure × Nat)),
      wrapUnit source symbols adapter candidates =
        .ok { outcome with failures := (before ++ (failure, i) :: after).map Prod.fst } ∧
      IsReport source symbols adapter candidates (before ++ (failure, i) :: after) ∧
      wrapUnit source symbols adapter (candidates.eraseIdx i) =
        .ok { outcome with failures := (before ++ after).map Prod.fst } := by
  obtain ⟨candidate, hunfelt⟩ := exists_unfeltAt_of_failsAt hfails halone
  obtain ⟨report, hreport, hfailures⟩ := exists_isReport source symbols adapter candidates
  obtain ⟨rest, hrest, hfailures'⟩ :=
    exists_isReport source symbols adapter (candidates.eraseIdx i)
  obtain ⟨before, after, rfl⟩ := List.append_of_mem ((hreport.mem_iff failure i).mpr hfails)
  have hsurvivors : survivors source symbols adapter (candidates.eraseIdx i) =
      survivors source symbols adapter candidates := by
    rw [survivors, survivors, hunfelt.plansOf_eraseIdx]
  have hentries : rest.map Prod.fst = (before ++ after).map Prod.fst := by
    rw [← hunfelt.map_report_eraseIdx hreport hrest, List.map_map]
    rfl
  obtain ⟨outcome, hrun, hrun'⟩ := exists_outcome_of_survivors_eq hsurvivors
  rw [hfailures] at hrun
  rw [hfailures', hentries] at hrun'
  exact ⟨outcome, before, after, hrun, hreport, hrun'⟩

/-- A definition that leaves the source is lost in planning, beside one that is
wrapped. -/
theorem wrapUnit_eraseIdx_of_failsAt_unplanned :
    let source := "int f()\x7b\x7d int g();"
    let f : Candidate := .ok ⟨"f", "int", [], 0, 5, some ⟨7, 9⟩, 1⟩
    let g : Candidate := .ok ⟨"g", "int", [], 10, 15, some ⟨17, 19⟩, 1⟩
    let failure : Failure := ⟨1, "g", .unresolvableSpan
      "definition 10..19 is outside the 18-byte source or splits a character"⟩
    FailsAt source .empty "memoize" [f, g] 1 failure ∧
      (failure.rejection.cause.kind ≠ "overloaded_name" ∧
        failure.rejection.cause.kind ≠ "overlapping_match") ∧
      ∃ (outcome : UnitOutcome) (before after : List (Failure × Nat)),
        wrapUnit source .empty "memoize" [f, g] =
          .ok { outcome with failures := (before ++ (failure, 1) :: after).map Prod.fst } ∧
        IsReport source .empty "memoize" [f, g] (before ++ (failure, 1) :: after) ∧
        wrapUnit source .empty "memoize" [f] =
          .ok { outcome with failures := (before ++ after).map Prod.fst } := by
  intro source f g failure
  have hfails : FailsAt source .empty "memoize" [f, g] 1 failure := by
    refine ⟨g, rfl, ?_⟩
    subst source f g failure
    rfl
  have hkind : failure.rejection.cause.kind ≠ "overloaded_name" ∧
      failure.rejection.cause.kind ≠ "overlapping_match" := by decide
  exact ⟨hfails, hkind, wrapUnit_eraseIdx_of_failsAt hfails (.inr hkind)⟩

end Unit

end CachedCalls
