/-
# The scan for overlaps compares all pairs

The scan reads the sorted plans once and remembers only those that still reach
over the next one. Here its result is compared with the definition that knows
nothing of a scan: two places of the sorted list are rivals if their plans have
a byte in common, a plan is kept if its place has no rival, and otherwise it is
reported with the name of its first rival. Rivals are told apart by their places,
because a list may hold equal plans, and each of them is then a rival of its
twin.
-/

import CachedCalls.Proofs.Places
import CachedCalls.Proofs.SourceUnit.Overlap

namespace CachedCalls

/-- The places of the successes and those of the failures are all places, each once. -/
theorem map_snd_valuesAt_perm {ε α : Type} (results : List (Except ε α)) :
    ((valuesAt Except.toOption results).map Prod.snd ++
      (valuesAt failureOf? results).map Prod.snd).Perm (List.range results.length) := by
  -- Every result takes its place along on its side of the separation.
  let placed (entry : Except ε α × Nat) : Except (ε × Nat) (α × Nat) :=
    (entry.1.map (·, entry.2)).mapError (·, entry.2)
  have hok : (partitionResults (results.zipIdx.map placed)).1 =
      valuesAt Except.toOption results := by
    rw [partitionResults_fst, List.filterMap_map, valuesAt]
    congr 1
    funext entry
    obtain ⟨result, i⟩ := entry
    cases result <;> rfl
  have herror : (partitionResults (results.zipIdx.map placed)).2 =
      valuesAt failureOf? results := by
    rw [partitionResults_snd, List.filterMap_map, valuesAt]
    congr 1
    funext entry
    obtain ⟨result, i⟩ := entry
    cases result <;> rfl
  rw [← hok, ← herror]
  refine (map_partitionResults_perm Prod.snd Prod.snd _).trans (.of_eq ?_)
  rw [List.range_eq_range', ← List.zipIdx_map_snd 0 results, List.map_map]
  congr 1
  funext entry
  obtain ⟨result, i⟩ := entry
  cases result <;> rfl

namespace Plan

/-! ## Rivals -/

/-- The plans at two places of a list have a byte in common. -/
def ShareByteAt (plans : List Plan) (i j : Nat) : Prop :=
  ∃ a b, plans[i]? = some a ∧ plans[j]? = some b ∧
    ∃ offset, a.footprint.Covers offset ∧ b.footprint.Covers offset

/-- The plan at place `i` has no byte in common with the plan at another place. -/
def ApartAt (plans : List Plan) (i : Nat) : Prop :=
  ∀ j, j ≠ i → ¬ ShareByteAt plans i j

/-- Of all places other than `i`, place `j` is the first whose plan has a byte in
common with the plan at place `i`. -/
structure FirstRivalAt (plans : List Plan) (i j : Nat) : Prop where
  other : j ≠ i
  shares : ShareByteAt plans i j
  first : ∀ k < j, k ≠ i → ¬ ShareByteAt plans i k

section Rivals

variable {plans : List Plan} {i : Nat} {plan : Plan}

theorem not_shareByteAt_iff (hi : plans[i]? = some plan) {j : Nat} :
    ¬ ShareByteAt plans i j ↔ ∀ other, plans[j]? = some other → other.meets plan = false := by
  have hmeets (other : Plan) : other.meets plan = false ↔
      ¬ ∃ offset, plan.footprint.Covers offset ∧ other.footprint.Covers offset := by
    rw [meets_comm, meets, ← Span.overlaps_iff_exists_covers, Bool.not_eq_true]
  constructor
  · intro hapart other hj
    rw [hmeets]
    exact fun hbyte => hapart ⟨plan, other, hi, hj, hbyte⟩
  · rintro hapart ⟨a, other, ha, hj, hbyte⟩
    obtain rfl : plan = a := Option.some.inj (hi.symm.trans ha)
    exact (hmeets other).mp (hapart other hj) hbyte

theorem find?_meets_eq_none_iff_apartAt (hi : plans[i]? = some plan) :
    ((plans.eraseIdx i).find? fun other => other.meets plan) = none ↔ ApartAt plans i := by
  rw [find?_eraseIdx_eq_none_iff]
  constructor
  · intro h j hj
    rw [not_shareByteAt_iff hi]
    exact fun other => h j other hj
  · intro h j other hj
    exact (not_shareByteAt_iff hi).mp (h j hj) other

theorem find?_meets_eq_some_iff_firstRivalAt (hi : plans[i]? = some plan) {other : Plan} :
    ((plans.eraseIdx i).find? fun other => other.meets plan) = some other ↔
      ∃ j, plans[j]? = some other ∧ FirstRivalAt plans i j := by
  rw [find?_eraseIdx_eq_some_iff]
  refine exists_congr fun j => ⟨?_, ?_⟩
  · rintro ⟨hji, hj, hmeets, hfirst⟩
    refine ⟨hj, hji, ?_, fun k hk hki => ?_⟩
    · rw [meets_comm, meets, Span.overlaps_iff_exists_covers] at hmeets
      exact ⟨plan, other, hi, hj, hmeets⟩
    · exact (not_shareByteAt_iff hi).mpr fun passed => hfirst k passed hk hki
  · rintro ⟨hj, hrival⟩
    refine ⟨hrival.other, hj, ?_, fun k passed hk hki => ?_⟩
    · rw [← Bool.not_eq_false]
      intro hmeets
      refine (not_shareByteAt_iff hi).mpr (fun b hb => ?_) hrival.shares
      obtain rfl : other = b := Option.some.inj (hj.symm.trans hb)
      exact hmeets
    · exact (not_shareByteAt_iff hi).mp (hrival.first k hk hki) passed

end Rivals

/-! ## What becomes of a place -/

/-- A plan is kept if no other place meets it, and otherwise reported with the
name of the first that does. -/
def verdictAt (plans : List Plan) (plan : Plan) (i : Nat) : Except Failure Plan :=
  match (plans.eraseIdx i).find? fun other => other.meets plan with
  | none => .ok plan
  | some other => .error ⟨plan.line, plan.function, .overlappingMatch other.function⟩

theorem verdictAt_eq_ok_iff {plans : List Plan} {plan kept : Plan} {i : Nat}
    (hi : plans[i]? = some plan) :
    verdictAt plans plan i = .ok kept ↔ kept = plan ∧ ApartAt plans i := by
  rw [← find?_meets_eq_none_iff_apartAt hi, verdictAt]
  split
  · next hfind => simp [hfind, eq_comm]
  · next hfind => simp [hfind]

theorem verdictAt_eq_error_iff {plans : List Plan} {plan : Plan} {i : Nat} {failure : Failure}
    (hi : plans[i]? = some plan) :
    verdictAt plans plan i = .error failure ↔
      ∃ other j, plans[j]? = some other ∧ FirstRivalAt plans i j ∧
        failure = ⟨plan.line, plan.function, .overlappingMatch other.function⟩ := by
  have hverdict : verdictAt plans plan i = .error failure ↔
      ∃ other, ((plans.eraseIdx i).find? fun other => other.meets plan) = some other ∧
        failure = ⟨plan.line, plan.function, .overlappingMatch other.function⟩ := by
    rw [verdictAt]
    split
    · next hfind => simp [hfind]
    · next hfind => simp [hfind, eq_comm]
  rw [hverdict]
  constructor
  · rintro ⟨other, hfind, hfailure⟩
    obtain ⟨j, hj, hrival⟩ := (find?_meets_eq_some_iff_firstRivalAt hi).mp hfind
    exact ⟨other, j, hj, hrival, hfailure⟩
  · rintro ⟨other, j, hj, hrival, hfailure⟩
    exact ⟨other, (find?_meets_eq_some_iff_firstRivalAt hi).mpr ⟨j, hj, hrival⟩, hfailure⟩

/-- What becomes of all places of a list, in their order. -/
def verdicts (plans : List Plan) : List (Except Failure Plan) :=
  plans.mapIdx fun i plan => verdictAt plans plan i

/-- Leaving out the current plan leaves those before it and those behind it. -/
theorem allOverlaps_eq_mapIdx (before plans : List Plan) :
    allOverlaps before plans = plans.mapIdx fun i plan =>
      (plan, (((before ++ plans).eraseIdx (before.length + i)).find? fun other =>
        other.meets plan).map (·.function)) := by
  induction plans generalizing before with
  | nil => rfl
  | cons plan later ih =>
      have hothers : (before ++ plan :: later).eraseIdx (before.length + 0) = before ++ later := by
        rw [List.eraseIdx_append_of_length_le (Nat.le_add_right _ _), Nat.add_sub_cancel_left,
          List.eraseIdx_cons_zero]
      have hlater := ih (before ++ [plan])
      rw [List.append_assoc, List.singleton_append, List.length_append, List.length_singleton]
        at hlater
      rw [allOverlaps, List.mapIdx_cons, hothers, hlater]
      simp only [Nat.add_assoc, Nat.add_comm 1]

/-- Separating the verdicts on all places is what the scan does. -/
theorem rejectOverlaps_eq_partitionResults {plans : List Plan}
    (hnonempty : ∀ p ∈ plans, p.Nonempty) :
    rejectOverlaps plans = partitionResults (verdicts (plans.mergeSort precedes)) := by
  have hscan : withOverlaps [] (plans.mergeSort precedes) =
      allOverlaps [] (plans.mergeSort precedes) :=
    withOverlaps_eq_allOverlaps (pairwise_mergeSort_precedes plans)
      (fun p hp => hnonempty p (List.mem_mergeSort.mp hp)) fun _ _ => rfl
  rw [rejectOverlaps, hscan, allOverlaps_eq_mapIdx, verdicts]
  congr 1
  apply List.ext_getElem?
  intro i
  rw [List.getElem?_map, List.getElem?_mapIdx, List.getElem?_mapIdx, Option.map_map]
  congr 1
  funext plan
  rw [Function.comp_apply, List.nil_append, List.length_nil, Nat.zero_add, verdictAt]
  cases ((plans.mergeSort precedes).eraseIdx i).find? fun other => other.meets plan with
  | none => rfl
  | some other => rfl

/-- The plans and the failures that the comparison of all pairs gives for a list
in source order, each with its place in the list. -/
structure ComparesAllPairs (sorted : List Plan) (kept : List (Plan × Nat))
    (refused : List (Failure × Nat)) : Prop where
  inOrder : sorted.Pairwise fun a b =>
    a.footprint.start < b.footprint.start ∨
      a.footprint.start = b.footprint.start ∧ a.footprint.stop ≤ b.footprint.stop
  keptInOrder : kept.Pairwise fun a b => a.2 < b.2
  refusedInOrder : refused.Pairwise fun a b => a.2 < b.2
  eachOnce : (kept.map Prod.snd ++ refused.map Prod.snd).Perm (List.range sorted.length)
  mem_kept_iff : ∀ plan i, (plan, i) ∈ kept ↔ sorted[i]? = some plan ∧ ApartAt sorted i
  mem_refused_iff : ∀ failure i, (failure, i) ∈ refused ↔
    ∃ plan other j, sorted[i]? = some plan ∧ sorted[j]? = some other ∧ FirstRivalAt sorted i j ∧
      failure = ⟨plan.line, plan.function, .overlappingMatch other.function⟩

theorem comparesAllPairs_verdicts {sorted : List Plan}
    (hsorted : sorted.Pairwise fun a b => a.precedes b = true) :
    ComparesAllPairs sorted (valuesAt Except.toOption (verdicts sorted))
      (valuesAt failureOf? (verdicts sorted)) where
  inOrder := hsorted.imp precedes_iff.mp
  keptInOrder := pairwise_snd_valuesAt _ _
  refusedInOrder := pairwise_snd_valuesAt _ _
  eachOnce := by
    have hlength : (verdicts sorted).length = sorted.length := List.length_mapIdx
    rw [← hlength]
    exact map_snd_valuesAt_perm (verdicts sorted)
  mem_kept_iff plan i := by
    rw [mem_valuesAt_iff, verdicts, valueAt_mapIdx_iff]
    constructor
    · rintro ⟨a, hi, hvalue⟩
      rw [toOption_eq_some_iff, verdictAt_eq_ok_iff hi] at hvalue
      obtain ⟨rfl, hapart⟩ := hvalue
      exact ⟨hi, hapart⟩
    · rintro ⟨hi, hapart⟩
      refine ⟨plan, hi, toOption_eq_some_iff.mpr ?_⟩
      exact (verdictAt_eq_ok_iff hi).mpr ⟨rfl, hapart⟩
  mem_refused_iff failure i := by
    rw [mem_valuesAt_iff, verdicts, valueAt_mapIdx_iff]
    constructor
    · rintro ⟨plan, hi, hvalue⟩
      rw [failureOf?_eq_some_iff, verdictAt_eq_error_iff hi] at hvalue
      obtain ⟨other, j, hj, hrival, hfailure⟩ := hvalue
      exact ⟨plan, other, j, hi, hj, hrival, hfailure⟩
    · rintro ⟨plan, other, j, hi, hj, hrival, hfailure⟩
      refine ⟨plan, hi, failureOf?_eq_some_iff.mpr ?_⟩
      exact (verdictAt_eq_error_iff hi).mpr ⟨other, j, hj, hrival, hfailure⟩

end Plan

/-- The scan for overlaps gives what the comparison of all pairs gives: it keeps
the plans that have no byte in common with another one, in the order of their
footprints, and reports each other plan once, under its own line and name and
with the name of the first other plan it has a byte in common with. -/
theorem rejectOverlaps_compares_all_pairs {plans : List Plan}
    (hnonempty : ∀ p ∈ plans, p.Nonempty) :
    ∃ kept refused, Plan.ComparesAllPairs (plans.mergeSort Plan.precedes) kept refused ∧
      rejectOverlaps plans = (kept.map Prod.fst, refused.map Prod.fst) := by
  have hsorted := Plan.pairwise_precedes_mergeSort plans
  refine ⟨_, _, Plan.comparesAllPairs_verdicts hsorted, ?_⟩
  rw [Plan.rejectOverlaps_eq_partitionResults hnonempty, map_fst_valuesAt, map_fst_valuesAt]
  rfl

/-- A plan inside another one, a third that begins in the first, and one apart. -/
theorem rejectOverlaps_compares_all_pairs_chained :
    let planned (name : String) (start stop line : Nat) : Plan :=
      Definition.planWith ⟨name, "int", [], start, start + 5, ⟨start + 7, stop⟩, line⟩
        "memoize" "()"
    let plans := [planned "h" 16 30 3, planned "f" 0 18 1, planned "k" 40 50 4, planned "g" 2 12 2]
    (∀ p ∈ plans, p.Nonempty) ∧
      ∃ kept refused, Plan.ComparesAllPairs (plans.mergeSort Plan.precedes) kept refused ∧
        rejectOverlaps plans = (kept.map Prod.fst, refused.map Prod.fst) := by
  intro planned plans
  have hnonempty : ∀ p ∈ plans, p.footprint.start < p.footprint.stop := by decide
  exact ⟨hnonempty, rejectOverlaps_compares_all_pairs hnonempty⟩

end CachedCalls
