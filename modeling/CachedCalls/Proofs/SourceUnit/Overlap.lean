/-
# Plans that share bytes

The scan for overlaps walks the plans in the order of their footprints and
forgets an earlier plan as soon as it meets one it does not overlap. That loses
nothing, because footprints that start in order and hold at least one byte are
convex: a plan that reaches over some later plan reaches over everything in
between. The scan therefore finds, for each plan, the first of all other plans
that shares a byte with it, and the plans it keeps are exactly those that share
a byte with themselves only.
-/

import CachedCalls.Proofs.SourceUnit.Gates

namespace CachedCalls

namespace Span

/-- The byte at `offset` belongs to the span. -/
def Covers (span : Span) (offset : Nat) : Prop :=
  span.start ≤ offset ∧ offset < span.stop

theorem overlaps_iff {a b : Span} :
    a.overlaps b = true ↔
      a.start < a.stop ∧ b.start < b.stop ∧ a.start < b.stop ∧ b.start < a.stop := by
  unfold overlaps
  rw [decide_eq_true_eq]
  omega

theorem overlaps_comm (a b : Span) : a.overlaps b = b.overlaps a := by
  rw [Bool.eq_iff_iff, overlaps_iff, overlaps_iff]
  omega

/-- Overlapping means what it says: there is a byte that belongs to both. -/
theorem overlaps_iff_exists_covers {a b : Span} :
    a.overlaps b = true ↔ ∃ offset, a.Covers offset ∧ b.Covers offset := by
  rw [overlaps_iff]
  constructor
  · intro h
    refine ⟨max a.start b.start, ⟨?_, ?_⟩, ⟨?_, ?_⟩⟩ <;> omega
  · rintro ⟨offset, ⟨ha, ha'⟩, hb, hb'⟩
    omega

theorem overlaps_self {a : Span} (h : a.start < a.stop) : a.overlaps a = true :=
  overlaps_iff.mpr ⟨h, h, h, h⟩

/-- A span that reaches over a later one reaches over what starts in between. -/
theorem overlaps_between {a b c : Span} (hab : a.start ≤ b.start) (hbc : b.start ≤ c.start)
    (hb : b.start < b.stop) (hac : a.overlaps c = true) : a.overlaps b = true := by
  rw [overlaps_iff] at *
  omega

end Span

namespace Plan

/-- Whether the footprints of two plans share a byte. -/
def meets (a b : Plan) : Bool :=
  a.footprint.overlaps b.footprint

theorem meets_comm (a b : Plan) : a.meets b = b.meets a :=
  Span.overlaps_comm _ _

/-- A plan touches at least one byte of the source. -/
def Nonempty (plan : Plan) : Prop :=
  plan.footprint.start < plan.footprint.stop

/-- One footprint starts no later than the other. -/
def StartsBefore (a b : Plan) : Prop :=
  a.footprint.start ≤ b.footprint.start

/-! ## The scan compares all pairs -/

/-- The scan for overlaps annotates the plans and changes nothing else. -/
theorem map_fst_withOverlaps (active plans : List Plan) :
    (withOverlaps active plans).map (·.1) = plans := by
  induction plans generalizing active with
  | nil => rfl
  | cons plan later ih =>
      rw [withOverlaps, List.map_cons, ih]

/-- Every plan with the name of the first other plan that meets it. Nothing is
forgotten: `before` holds all plans that have been passed. -/
def allOverlaps (before : List Plan) : List Plan → List (Plan × Option String)
  | [] => []
  | plan :: later =>
    (plan, ((before ++ later).find? fun other => other.meets plan).map (·.function)) ::
      allOverlaps (before ++ [plan]) later

/-- If any later plan meets the current one then the next plan does. -/
theorem find?_meets_eq_head? {plan : Plan} {later : List Plan}
    (hstarts : (plan :: later).Pairwise StartsBefore) (hnonempty : ∀ p ∈ later, p.Nonempty) :
    (later.find? fun other => other.meets plan) =
      later.head?.filter fun other => plan.footprint.overlaps other.footprint := by
  cases later with
  | nil => rfl
  | cons next rest =>
      rw [List.head?_cons, Option.filter_some, ← meets]
      cases hnext : plan.meets next with
      | true =>
          rw [if_pos rfl]
          exact List.find?_cons_of_pos (by rw [meets_comm, hnext])
      | false =>
          rw [if_neg Bool.false_ne_true,
            List.find?_cons_of_neg (by rw [meets_comm, hnext]; exact Bool.false_ne_true),
            List.find?_eq_none]
          intro far hfar hmeets
          have hplan := (List.pairwise_cons.mp hstarts).1 next List.mem_cons_self
          have hrest := (List.pairwise_cons.mp (List.pairwise_cons.mp hstarts).2).1 far hfar
          have hbetween : plan.meets next = true :=
            Span.overlaps_between hplan hrest (hnonempty next List.mem_cons_self)
              (by rw [← meets, meets_comm]; exact hmeets)
          rw [hnext] at hbetween
          cases hbetween

/-- The invariant of the scan: toward every plan still to come, the active plans
behave like all the plans that have been passed. -/
theorem withOverlaps_eq_allOverlaps {before active plans : List Plan}
    (hstarts : (before ++ plans).Pairwise StartsBefore) (hnonempty : ∀ p ∈ plans, p.Nonempty)
    (hactive : ∀ p ∈ plans, active.filter (·.meets p) = before.filter (·.meets p)) :
    withOverlaps active plans = allOverlaps before plans := by
  induction plans generalizing before active with
  | nil => rfl
  | cons plan later ih =>
      rw [List.forall_mem_cons] at hnonempty hactive
      have hstep : (before ++ [plan]) ++ later = before ++ plan :: later := by simp
      have hparts := List.pairwise_append.mp hstarts
      have hreaching : (active.filter fun earlier => earlier.footprint.overlaps plan.footprint) =
          before.filter (·.meets plan) := hactive.1
      rw [withOverlaps, allOverlaps, hreaching, List.find?_append, List.head?_filter,
        find?_meets_eq_head? hparts.2.1 hnonempty.2, Option.orElse_eq_orElse,
        Option.orElse_eq_or]
      congr 1
      refine ih (by rw [hstep]; exact hstarts) hnonempty.2 fun far hfar => ?_
      rw [List.filter_append, List.filter_append, List.filter_filter]
      congr 1
      -- A passed plan that meets `far` meets `plan` on the way, so it was kept.
      apply List.filter_congr
      intro p hp
      have hplan := hparts.2.2 p hp plan List.mem_cons_self
      have hfar' := (List.pairwise_cons.mp hparts.2.1).1 far hfar
      cases hmeets : p.meets far with
      | false => simp
      | true =>
          have hbetween : p.meets plan = true :=
            Span.overlaps_between hplan hfar' hnonempty.1 hmeets
          simp [hbetween]

/-! ## The plans that are kept -/

/-- Of all `plans` only one meets `plan`. As a plan that touches a byte meets
itself, this says that it meets no other. Counting makes the notion independent
of the order of `plans`, and it treats equal plans as different ones. -/
def isAlone (plans : List Plan) (plan : Plan) : Bool :=
  plans.countP plan.meets == 1

theorem isAlone_perm {plans others : List Plan} (h : plans.Perm others) (plan : Plan) :
    isAlone plans plan = isAlone others plan := by
  unfold isAlone
  rw [h.countP_eq]

theorem find?_meets_eq_none_iff (before later : List Plan) {plan : Plan}
    (hnonempty : plan.Nonempty) :
    ((before ++ later).find? fun other => other.meets plan) = none ↔
      isAlone (before ++ plan :: later) plan = true := by
  have hself : plan.meets plan = true := Span.overlaps_self hnonempty
  have hcount : (before ++ plan :: later).countP plan.meets =
      (before ++ later).countP plan.meets + 1 := by
    simp only [List.countP_append, List.countP_cons_of_pos hself]
    omega
  rw [isAlone, hcount, beq_iff_eq, Nat.add_eq_right, List.countP_eq_zero, List.find?_eq_none]
  simp only [meets_comm plan]

theorem filterMap_allOverlaps (before : List Plan) {plans : List Plan}
    (hnonempty : ∀ p ∈ plans, p.Nonempty) :
    ((allOverlaps before plans).filterMap fun entry =>
        match entry with
        | (plan, none) => some plan
        | (_, some _) => none) =
      plans.filter (isAlone (before ++ plans)) := by
  induction plans generalizing before with
  | nil => rfl
  | cons plan later ih =>
      rw [List.forall_mem_cons] at hnonempty
      have halone := find?_meets_eq_none_iff before later hnonempty.1
      have hlater := ih (before ++ [plan]) hnonempty.2
      rw [List.append_assoc, List.singleton_append] at hlater
      rw [allOverlaps]
      cases hfind : (before ++ later).find? fun other => other.meets plan with
      | none =>
          rw [List.filter_cons_of_pos (halone.mp hfind)]
          simpa using hlater
      | some other =>
          rw [List.filter_cons_of_neg (by rw [← halone, hfind]; simp)]
          simpa using hlater

/-! ## Source order -/

theorem precedes_iff {a b : Plan} :
    a.precedes b = true ↔
      a.footprint.start < b.footprint.start ∨
        a.footprint.start = b.footprint.start ∧ a.footprint.stop ≤ b.footprint.stop := by
  simp [precedes]

theorem pairwise_precedes_mergeSort (plans : List Plan) :
    (plans.mergeSort precedes).Pairwise fun a b => a.precedes b = true := by
  apply List.pairwise_mergeSort
  · intro a b c hab hbc
    rw [precedes_iff] at *
    omega
  · intro a b
    rw [Bool.or_eq_true, precedes_iff, precedes_iff]
    omega

theorem pairwise_mergeSort_precedes (plans : List Plan) :
    (plans.mergeSort precedes).Pairwise StartsBefore := by
  apply (pairwise_precedes_mergeSort plans).imp
  intro a b h
  rw [precedes_iff] at h
  unfold StartsBefore
  omega

end Plan

/-- The kept plans, said without the scan: in source order, those that meet no
other plan. -/
theorem rejectOverlaps_fst {plans : List Plan} (hnonempty : ∀ p ∈ plans, p.Nonempty) :
    (rejectOverlaps plans).1 =
      (plans.mergeSort Plan.precedes).filter (Plan.isAlone plans) := by
  have hsorted : ∀ p ∈ plans.mergeSort Plan.precedes, p.Nonempty :=
    fun p hp => hnonempty p (List.mem_mergeSort.mp hp)
  have hscan : Plan.withOverlaps [] (plans.mergeSort Plan.precedes) =
      Plan.allOverlaps [] (plans.mergeSort Plan.precedes) :=
    Plan.withOverlaps_eq_allOverlaps (Plan.pairwise_mergeSort_precedes plans) hsorted
      fun _ _ => rfl
  have hkept := Plan.filterMap_allOverlaps [] hsorted
  rw [List.nil_append, funext (Plan.isAlone_perm (List.mergeSort_perm plans _))] at hkept
  rw [← hkept, rejectOverlaps, hscan, partitionResults_fst, List.filterMap_map]
  congr 1
  funext ⟨plan, other⟩
  cases other with
  | none => rfl
  | some name => rfl

/-- Kept plans stand one behind the other. -/
theorem rejectOverlaps_fst_pairwise {plans : List Plan} (hnonempty : ∀ p ∈ plans, p.Nonempty) :
    (rejectOverlaps plans).1.Pairwise fun a b => a.footprint.stop ≤ b.footprint.start := by
  rw [rejectOverlaps_fst hnonempty, List.pairwise_filter]
  have hstarts := Plan.pairwise_mergeSort_precedes plans
  rw [List.pairwise_iff_forall_sublist] at hstarts ⊢
  intro a b hsublist ha hb
  have hab : a.footprint.start ≤ b.footprint.start := hstarts hsublist
  have haNonempty : a.Nonempty :=
    hnonempty a (List.mem_mergeSort.mp (hsublist.subset (by simp)))
  have hbNonempty : b.Nonempty :=
    hnonempty b (List.mem_mergeSort.mp (hsublist.subset (by simp)))
  -- Were they to meet, both would count among the plans that meet `a`.
  have hmeets : a.meets b = false := by
    rw [← Bool.not_eq_true]
    intro hmeets
    have hcount := hsublist.countP_le (p := a.meets)
    rw [(List.mergeSort_perm plans _).countP_eq] at hcount
    have hself : a.meets a = true := Span.overlaps_self haNonempty
    rw [Plan.isAlone, beq_iff_eq] at ha
    simp [hself, hmeets, ha] at hcount
  rw [Plan.meets, ← Bool.not_eq_true, Span.overlaps_iff] at hmeets
  unfold Plan.Nonempty at haNonempty hbNonempty
  omega

end CachedCalls
