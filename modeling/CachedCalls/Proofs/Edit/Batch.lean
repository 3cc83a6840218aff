/-
# Accepted batches of edits

Validation looks at every span alone and then sweeps once over the batch in the
order of positions, remembering a single replacement. Both parts are restated
here without the loop: a batch passes the first part exactly when each edit
fits the source, and the sweep lets a batch through whenever every edit stays
clear of every replacement in front of it. The order of positions is a total
preorder, so a list in strictly ascending order is the only one the sort can
produce from its members.
-/

import CachedCalls.Edit
import CachedCalls.Proofs.Text.Slice
import Mathlib.Tactic.SplitIfs

namespace CachedCalls.Edit

open Text

/-! ## The order of positions -/

theorem precedes_iff {a b : Edit} :
    a.precedes b = true ↔
      a.span.start < b.span.start ∨ a.span.start = b.span.start ∧ a.rank ≤ b.rank := by
  simp [precedes]

theorem precedes_trans (a b c : Edit) (hab : a.precedes b = true) (hbc : b.precedes c = true) :
    a.precedes c = true := by
  rw [precedes_iff] at *
  omega

theorem precedes_total (a b : Edit) : (a.precedes b || b.precedes a) = true := by
  rw [Bool.or_eq_true, precedes_iff, precedes_iff]
  omega

/-- One edit stands strictly in front of another: it starts earlier, or at the
same offset with a smaller rank. -/
def Before (a b : Edit) : Prop :=
  a.span.start < b.span.start ∨ a.span.start = b.span.start ∧ a.rank < b.rank

theorem precedes_of_before {a b : Edit} (h : a.Before b) : a.precedes b = true := by
  unfold Before at h
  rw [precedes_iff]
  omega

theorem not_precedes_of_before {a b : Edit} (h : a.Before b) : ¬ b.precedes a = true := by
  unfold Before at h
  rw [precedes_iff]
  omega

/-- Supplied order matters only for ties. A strictly ascending arrangement of a
batch is therefore the batch in order, however it was supplied. -/
theorem inOrder_eq_of_before {edits ordered : List Edit} (hperm : edits.Perm ordered)
    (hbefore : ordered.Pairwise Before) : inOrder edits = ordered := by
  have hsorted : (inOrder edits).Pairwise (fun a b => a.precedes b = true) :=
    List.pairwise_mergeSort precedes_trans precedes_total edits
  have hpermSorted : (inOrder edits).Perm ordered := (List.mergeSort_perm edits _).trans hperm
  have hties : ∀ a b : Edit, a ∈ ordered → b ∈ ordered →
      a.precedes b = true → b.precedes a = true → a = b := by
    intro a b ha hb
    -- Of two members at different places one stands strictly in front of the other.
    refine List.Pairwise.forall_of_forall_of_flip
      (R := fun a b : Edit => a.precedes b = true → b.precedes a = true → a = b)
      (fun _ _ _ _ => rfl) (hbefore.imp fun {a b} h _ hba => ?_)
      (hbefore.imp fun {a b} h hab _ => ?_) ha hb
    · exact absurd hba (not_precedes_of_before h)
    · exact absurd hab (not_precedes_of_before h)
  refine @List.Perm.eq_of_pairwise _ (fun a b => a.precedes b = true) _ _ ?_ hsorted
    (hbefore.imp precedes_of_before) hpermSorted
  intro a b ha hb
  exact hties a b (hpermSorted.mem_iff.mp ha) hb

/-! ## Spans -/

/-- An edit stays inside the source: its span is forward, and both bounds are
usable offsets. -/
structure Fits (source : String) (edit : Edit) : Prop where
  forward : edit.span.start ≤ edit.span.stop
  inside : edit.span.stop ≤ size source
  start_isBoundary : isBoundary source edit.span.start = true
  stop_isBoundary : isBoundary source edit.span.stop = true

theorem checkSpan_eq_ok_iff {source : String} {edit : Edit} :
    checkSpan source edit = .ok () ↔ Fits source edit := by
  unfold checkSpan
  constructor
  · intro h
    dsimp only at h
    split_ifs at h with hbounds hstart hstop
    · exact ⟨by omega, by omega, by simpa using hstart, by simpa using hstop⟩
  · rintro ⟨hforward, hinside, hstart, hstop⟩
    dsimp only
    rw [if_neg (by omega), if_neg (by simp [hstart]), if_neg (by simp [hstop])]

/-- The first part of validation is the conjunction over the batch. -/
theorem forM_checkSpan_eq_ok_iff {source : String} {edits : List Edit} :
    edits.forM (checkSpan source) = .ok () ↔ ∀ edit ∈ edits, Fits source edit := by
  induction edits with
  | nil => simp [List.forM, pure, Except.pure]
  | cons edit edits ih =>
      rw [List.forall_mem_cons, ← ih, ← checkSpan_eq_ok_iff]
      cases hspan : checkSpan source edit with
      | error fault => simp [List.forM_cons, hspan, bind, Except.bind]
      | ok _ => simp [List.forM_cons, hspan, bind, Except.bind]

/-! ## Conflicts -/

/-- Two edits of one source are compatible, whichever of them comes first: the
bytes that two replacements take away are disjoint, and nothing is inserted
strictly inside a replacement. -/
structure Compatible (a b : Edit) : Prop where
  replacements : a.isReplace = true → b.isReplace = true →
    a.span.stop ≤ b.span.start ∨ b.span.stop ≤ a.span.start
  insertion_right : a.isReplace = true → b.isReplace = false →
    ¬ (a.span.start < b.span.start ∧ b.span.start < a.span.stop)
  insertion_left : a.isReplace = false → b.isReplace = true →
    ¬ (b.span.start < a.span.start ∧ a.span.start < b.span.stop)

theorem Compatible.symm {a b : Edit} (h : a.Compatible b) : b.Compatible a where
  replacements hb ha := (h.replacements ha hb).symm
  insertion_right hb ha := h.insertion_left ha hb
  insertion_left hb ha := h.insertion_right ha hb

theorem stop_eq_start_of_not_isReplace {edit : Edit} (h : edit.isReplace = false) :
    edit.span.stop = edit.span.start := by
  cases edit with
  | replace span text => cases h
  | insertBefore offset text => rfl
  | insertAfter offset text => rfl

theorem compatible_of_stop_le_start {a b : Edit} (h : a.span.stop ≤ b.span.start) :
    a.Compatible b where
  replacements _ _ := Or.inl h
  insertion_right _ _ := by omega
  insertion_left ha _ := by
    have hempty := stop_eq_start_of_not_isReplace ha
    omega

/-- A later edit stays clear of an earlier one: it touches no byte that the
earlier one takes away. -/
def StaysClear (earlier later : Edit) : Prop :=
  earlier.isReplace = true → later.conflictsWith earlier.span = false

/-- What starts behind the bytes an edit takes away stays clear of it. -/
theorem staysClear_of_stop_le_start {earlier later : Edit}
    (h : earlier.span.stop ≤ later.span.start) : StaysClear earlier later := by
  intro _
  unfold conflictsWith Span.strictlyContains
  split_ifs
  · simpa using h
  · simp only [Bool.and_eq_false_iff, decide_eq_false_iff_not]
    omega

/-- The sweep compares each edit with one replacement only, so it accepts when
every edit stays clear of all replacements in front of it. -/
theorem sweep_eq_ok_of_staysClear {last : Option Span} {ordered : List Edit}
    (hlast : ∀ taken ∈ last, ∀ edit ∈ ordered, edit.conflictsWith taken = false)
    (hclear : ordered.Pairwise StaysClear) : sweep last ordered = .ok () := by
  induction ordered generalizing last with
  | nil => rfl
  | cons edit later ih =>
      rw [List.pairwise_cons] at hclear
      have hnone : last.filter edit.conflictsWith = none := by
        rw [Option.filter_eq_none_iff]
        intro taken htaken
        simpa using hlast taken htaken edit List.mem_cons_self
      rw [sweep, hnone]
      refine ih (fun taken htaken other hother => ?_) hclear.2
      split_ifs at htaken with hreplace
      · cases htaken
        exact hclear.1 other hother hreplace
      · exact hlast taken htaken other (List.mem_cons_of_mem _ hother)

/-- A batch is accepted when every edit fits the source and, in the order of
positions, stays clear of every edit in front of it. -/
theorem validate_eq_ok_of_staysClear {source : String} {edits : List Edit}
    (hfits : ∀ edit ∈ edits, Fits source edit)
    (hclear : (inOrder edits).Pairwise StaysClear) : validate source edits = .ok () := by
  rw [validate, forM_checkSpan_eq_ok_iff.mpr hfits]
  exact sweep_eq_ok_of_staysClear (by simp) hclear

end CachedCalls.Edit
