/-
# Which batches are accepted

The sweep remembers one replacement, the last it has passed, and compares the
next edit with that one only. On edits in the order of positions this is enough:
the last replacement reaches furthest, so a batch is accepted exactly when its
edits fit the source and, in order, each starts behind the bytes taken by all
edits in front of it.

The order of positions does not look at where an edit ends. Two replacements at
one offset are therefore compared in the order in which they were supplied, and
if just one of them is empty the answer depends on that order. This is the only
way in which it can: without such a pair, acceptance means that the edits fit
and are pairwise compatible, and neither depends on the order of a batch.
-/

import CachedCalls.Proofs.Edit.Batch

namespace CachedCalls.Edit

open Text

/-- One edit starts no earlier than the bytes taken by another end. -/
def Follows (a b : Edit) : Prop :=
  a.span.stop ≤ b.span.start

/-- An edit has passed a replacement of `taken` in the order of positions: it
starts no earlier, and an insertion starts strictly later, because at one offset
insertions come first. -/
def Passed (taken : Span) (edit : Edit) : Prop :=
  taken.start ≤ edit.span.start ∧ (edit.isReplace = false → taken.start < edit.span.start)

theorem rank_eq_two_iff {edit : Edit} : edit.rank = 2 ↔ edit.isReplace = true := by
  cases edit with
  | replace span text => simp [rank, isReplace]
  | insertBefore offset text => simp [rank, isReplace]
  | insertAfter offset text => simp [rank, isReplace]

theorem rank_le_two (edit : Edit) : edit.rank ≤ 2 := by
  cases edit with
  | replace span text => simp [rank]
  | insertBefore offset text => simp [rank]
  | insertAfter offset text => simp [rank]

theorem rank_lt_two_of_not_isReplace {edit : Edit} (h : edit.isReplace = false) : edit.rank < 2 := by
  have hne : edit.rank ≠ 2 := by rw [Ne, rank_eq_two_iff, h]; exact Bool.false_ne_true
  have hle := rank_le_two edit
  omega

theorem passed_of_precedes {a b : Edit} (ha : a.isReplace = true) (hab : a.precedes b = true) :
    Passed a.span b := by
  rw [precedes_iff] at hab
  refine ⟨by omega, fun hb => ?_⟩
  have hrank := rank_eq_two_iff.mpr ha
  have hlower := rank_lt_two_of_not_isReplace hb
  omega

/-- Whatever has passed a replacement and does not conflict with it starts
behind it. -/
theorem stop_le_start_of_passed {taken : Span} {edit : Edit} (hpassed : Passed taken edit)
    (hclear : edit.conflictsWith taken = false) : taken.stop ≤ edit.span.start := by
  unfold conflictsWith Span.strictlyContains at hclear
  cases hreplace : edit.isReplace with
  | true => simpa [hreplace] using hclear
  | false =>
      have hstart := hpassed.2 hreplace
      simpa [hreplace, hstart] using hclear

/-- One comparison is enough. The invariant of the sweep is that everything
still to come has passed the remembered replacement. -/
theorem follows_of_sweep_eq_ok {last : Option Span} {ordered : List Edit}
    (hsorted : ordered.Pairwise fun a b => a.precedes b = true)
    (hlast : ∀ taken ∈ last, ∀ edit ∈ ordered, Passed taken edit)
    (hsweep : sweep last ordered = .ok ()) :
    (∀ taken ∈ last, ∀ edit ∈ ordered, taken.stop ≤ edit.span.start) ∧
      ordered.Pairwise Follows := by
  induction ordered generalizing last with
  | nil => simp
  | cons edit later ih =>
      rw [List.pairwise_cons] at hsorted
      rw [sweep] at hsweep
      split at hsweep
      · cases hsweep
      · next hnone =>
        rw [Option.filter_eq_none_iff] at hnone
        have hstarts : ∀ other ∈ later, edit.span.start ≤ other.span.start := by
          intro other hother
          have hprecedes := precedes_iff.mp (hsorted.1 other hother)
          omega
        have hedit : ∀ taken ∈ last, taken.stop ≤ edit.span.start := by
          intro taken htaken
          refine stop_le_start_of_passed (hlast taken htaken edit List.mem_cons_self) ?_
          simpa using hnone taken htaken
        have htaken : ∀ taken ∈ last, ∀ other ∈ edit :: later,
            taken.stop ≤ other.span.start := by
          intro taken htaken
          rw [List.forall_mem_cons]
          exact ⟨hedit taken htaken,
            fun other hother => Nat.le_trans (hedit taken htaken) (hstarts other hother)⟩
        refine ⟨htaken, List.pairwise_cons.mpr ?_⟩
        cases hreplace : edit.isReplace with
        | true =>
            -- The edit itself is remembered, and the rest is compared with it.
            rw [hreplace, if_pos rfl] at hsweep
            have hpassed : ∀ taken ∈ some edit.span, ∀ other ∈ later, Passed taken other := by
              rintro taken ⟨⟩ other hother
              exact passed_of_precedes hreplace (hsorted.1 other hother)
            obtain ⟨hbehind, hrest⟩ := ih hsorted.2 hpassed hsweep
            exact ⟨hbehind edit.span rfl, hrest⟩
        | false =>
            rw [hreplace, if_neg Bool.false_ne_true] at hsweep
            have hpassed : ∀ taken ∈ last, ∀ other ∈ later, Passed taken other :=
              fun taken htaken other hother =>
                hlast taken htaken other (List.mem_cons_of_mem edit hother)
            refine ⟨fun other hother => ?_, (ih hsorted.2 hpassed hsweep).2⟩
            rw [Follows, stop_eq_start_of_not_isReplace hreplace]
            exact hstarts other hother

theorem pairwise_inOrder (edits : List Edit) :
    (inOrder edits).Pairwise fun a b => a.precedes b = true :=
  List.pairwise_mergeSort precedes_trans precedes_total edits

/-- Acceptance without the sweep: the edits fit the source and, in the order of
positions, follow one another. -/
theorem validate_eq_ok_iff {source : String} {edits : List Edit} :
    validate source edits = .ok () ↔
      (∀ edit ∈ edits, Fits source edit) ∧ (inOrder edits).Pairwise Follows := by
  constructor
  · intro h
    rw [validate] at h
    cases hspans : edits.forM (checkSpan source) with
    | error fault => simp [hspans, bind, Except.bind] at h
    | ok _ =>
        have hsweep : sweep none (inOrder edits) = .ok () := by
          simpa [hspans, bind, Except.bind] using h
        exact ⟨forM_checkSpan_eq_ok_iff.mp hspans,
          (follows_of_sweep_eq_ok (pairwise_inOrder edits) (by simp) hsweep).2⟩
  · rintro ⟨hfits, hfollows⟩
    exact validate_eq_ok_of_staysClear hfits (hfollows.imp staysClear_of_stop_le_start)

/-! ## The order in which a batch is supplied -/

/-- Two replacements at one offset, of which just one takes bytes away. -/
def HasEmptyTie (edits : List Edit) : Prop :=
  ∃ a ∈ edits, ∃ b ∈ edits, a.isReplace = true ∧ b.isReplace = true ∧
    a.span.start = b.span.start ∧ a.span.stop = a.span.start ∧ b.span.start < b.span.stop

theorem hasEmptyTie_perm {edits supplied : List Edit} (hperm : supplied.Perm edits) :
    HasEmptyTie supplied ↔ HasEmptyTie edits := by
  simp only [HasEmptyTie, hperm.mem_iff]

/-- Compatible edits follow one another in the order of positions, unless they
are an empty tie in the wrong order. -/
theorem follows_of_compatible {a b : Edit} (hab : a.precedes b = true) (hcompatible : a.Compatible b)
    (hb : b.span.start ≤ b.span.stop)
    (htie : a.isReplace = true → b.isReplace = true → a.span.start = b.span.start →
      b.span.stop = b.span.start → a.span.stop ≤ a.span.start) : a.Follows b := by
  have hstarts := precedes_iff.mp hab
  unfold Follows
  cases hra : a.isReplace with
  | false =>
      rw [stop_eq_start_of_not_isReplace hra]
      omega
  | true =>
      have hpassed := passed_of_precedes hra hab
      cases hrb : b.isReplace with
      | false =>
          have hinside := hcompatible.insertion_right hra hrb
          have hlt := hpassed.2 hrb
          omega
      | true =>
          have htie := htie hra hrb
          rcases hcompatible.replacements hra hrb with h | h
          · exact h
          · omega

/-- Without an empty tie, acceptance does not mention the order of the batch. -/
theorem validate_eq_ok_iff_compatible {source : String} {edits : List Edit}
    (hties : ¬ HasEmptyTie edits) :
    validate source edits = .ok () ↔
      (∀ edit ∈ edits, Fits source edit) ∧ edits.Pairwise Compatible := by
  have hsort : (inOrder edits).Perm edits := List.mergeSort_perm edits _
  rw [validate_eq_ok_iff]
  constructor
  · rintro ⟨hfits, hfollows⟩
    exact ⟨hfits, (hfollows.imp compatible_of_stop_le_start).perm hsort Compatible.symm⟩
  · rintro ⟨hfits, hcompatible⟩
    refine ⟨hfits, ?_⟩
    have hpairs := (pairwise_inOrder edits).and
      (hcompatible.perm hsort.symm Compatible.symm)
    apply hpairs.imp_of_mem
    intro a b ha hb hab
    rw [hsort.mem_iff] at ha hb
    refine follows_of_compatible hab.1 hab.2 (hfits b hb).forward fun hra hrb hstart hempty => ?_
    rw [← Nat.not_lt]
    intro hbytes
    exact hties ⟨b, hb, a, ha, hrb, hra, hstart.symm, hempty, hbytes⟩

/-- An empty tie is refused when the replacement that takes bytes away is
supplied first. -/
theorem validate_ne_ok_of_tie {source : String} {edits : List Edit} {a b : Edit}
    (hsupplied : [b, a].Sublist edits) (ha : a.isReplace = true) (hb : b.isReplace = true)
    (hstart : a.span.start = b.span.start) (hbytes : b.span.start < b.span.stop) :
    validate source edits ≠ .ok () := by
  intro hvalid
  have hfollows := (validate_eq_ok_iff.mp hvalid).2
  have hba : b.precedes a = true := by
    have hranks : b.rank = a.rank :=
      (rank_eq_two_iff.mpr hb).trans (rank_eq_two_iff.mpr ha).symm
    exact precedes_iff.mpr (Or.inr ⟨hstart.symm, Nat.le_of_eq hranks⟩)
  have hsublist := List.pair_sublist_mergeSort precedes_trans precedes_total hba hsupplied
  have hbehind : b.Follows a := by
    have hpair := hfollows.sublist hsublist
    simpa using hpair
  unfold Follows at hbehind
  omega

/-- A batch with an empty tie can be supplied with the two in the wrong order. -/
theorem exists_perm_ne_ok_of_hasEmptyTie {edits : List Edit} (htie : HasEmptyTie edits)
    (source : String) : ∃ supplied, supplied.Perm edits ∧ validate source supplied ≠ .ok () := by
  obtain ⟨a, ha, b, hb, hra, hrb, hstart, hempty, hbytes⟩ := htie
  have hne : a ≠ b := by
    rintro rfl
    omega
  have hrest : edits.Perm (b :: a :: (edits.erase b).erase a) :=
    (List.perm_cons_erase hb).trans
      ((List.perm_cons_erase ((List.mem_erase_of_ne hne).mpr ha)).cons b)
  refine ⟨_, hrest.symm, validate_ne_ok_of_tie ?_ hra hrb hstart hbytes⟩
  exact ((List.nil_sublist _).cons_cons a).cons_cons b

/-- When the order of a batch does not matter, exactly: no empty tie is among
the edits, or they are refused in every order. -/
theorem validate_perm_invariant_iff (source : String) (edits : List Edit) :
    (∀ supplied, supplied.Perm edits →
      (validate source supplied = .ok () ↔ validate source edits = .ok ())) ↔
    ¬ HasEmptyTie edits ∨
      ∀ supplied, supplied.Perm edits → validate source supplied ≠ .ok () := by
  constructor
  · intro hinvariant
    by_cases htie : HasEmptyTie edits
    · obtain ⟨refused, hperm, hrefused⟩ := exists_perm_ne_ok_of_hasEmptyTie htie source
      refine Or.inr fun supplied hsupplied hvalid => hrefused ?_
      exact (hinvariant refused hperm).mpr ((hinvariant supplied hsupplied).mp hvalid)
    · exact Or.inl htie
  · rintro (hties | hrefused) supplied hperm
    · have hties' : ¬ HasEmptyTie supplied := by rwa [hasEmptyTie_perm hperm]
      rw [validate_eq_ok_iff_compatible hties, validate_eq_ok_iff_compatible hties',
        hperm.pairwise_iff Compatible.symm]
      simp only [hperm.mem_iff]
    · exact iff_of_false (hrefused supplied hperm) (hrefused edits (.refl edits))

/-- An empty replacement is accepted in front of a replacement at the same
offset, and the same two edits are refused the other way round. -/
theorem validate_empty_tie_order_matters :
    validate "ab" [.replace ⟨0, 0⟩ "", .replace ⟨0, 1⟩ "a"] = .ok () ∧
      validate "ab" [.replace ⟨0, 1⟩ "a", .replace ⟨0, 0⟩ ""] =
        .error (.conflict ⟨0, 1⟩ ⟨0, 0⟩) := by
  constructor
  all_goals
    simp [validate, checkSpan, size, byteLength, isBoundary, cut?, Char.utf8Size,
      inOrder, List.mergeSort, List.MergeSort.Internal.splitInTwo, precedes, span, rank,
      sweep, Option.filter, conflictsWith, isReplace, bind, Except.bind, pure, Except.pure]

end CachedCalls.Edit
