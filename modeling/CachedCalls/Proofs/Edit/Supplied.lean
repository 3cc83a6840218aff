/-
# Batches as they are supplied

A batch is a list, but the place of an edit in it counts for little. It decides
which of two edits of one kind at one offset comes first, and nothing else. Two
things are said here with places. The sweep, which walks the ordered batch and
remembers one replacement, refuses exactly the batches in which two edits clash,
and clashing is a matter of the two edits and their places alone. And a batch can
be supplied in any other order that leaves such ties in place: it is refused or
applied as before, with the same text.
-/

import CachedCalls.Proofs.Edit.InPlace

namespace CachedCalls.Edit

open Text

/-! ## Clashes -/

/-- Two edits of a batch, with their places, that cannot both be applied. Of two replacements the
one that starts first, or was supplied first at one offset, must end before the other starts; and
nothing may be inserted strictly inside a replacement. -/
inductive Clash (a b : Edit × Nat) : Prop where
  | replacements (ha : a.1.isReplace = true) (hb : b.1.isReplace = true)
      (hfirst : a.1.span.start < b.1.span.start ∨ a.1.span.start = b.1.span.start ∧ a.2 < b.2)
      (hover : b.1.span.start < a.1.span.stop)
  | insertion (ha : a.1.isReplace = true) (hb : b.1.isReplace = false)
      (hinside : a.1.span.strictlyContains b.1.span.start = true)

theorem strictlyContains_iff {span : Span} {offset : Nat} :
    span.strictlyContains offset = true ↔ span.start < offset ∧ offset < span.stop := by
  simp [Span.strictlyContains]

/-- Edits clash when the one applied first takes away what stands where the other starts. -/
theorem clash_iff {a b : Edit × Nat} : Clash a b ↔ AppliesBefore a b ∧ ¬ a.1.Follows b.1 := by
  unfold AppliesBefore Follows
  constructor
  · rintro (⟨ha, hb, hfirst, hover⟩ | ⟨ha, hb, hinside⟩)
    · rw [rank_eq_two_iff.mpr ha, rank_eq_two_iff.mpr hb]
      omega
    · rw [strictlyContains_iff] at hinside
      omega
  · rintro ⟨hbefore, hover⟩
    cases ha : a.1.isReplace with
    | false =>
        rw [stop_eq_start_of_not_isReplace ha] at hover
        omega
    | true =>
        have hranka := rank_eq_two_iff.mpr ha
        cases hb : b.1.isReplace with
        | true =>
            have hrankb := rank_eq_two_iff.mpr hb
            exact .replacements ha hb (by omega) (by omega)
        | false =>
            have hrankb := rank_lt_two_of_not_isReplace hb
            exact .insertion ha hb (strictlyContains_iff.mpr (by omega))

/-- Acceptance by pairs of edits instead of a sweep over all of them. -/
theorem validate_eq_ok_iff_not_clash {source : String} {edits : List Edit} :
    validate source edits = .ok () ↔
      (∀ edit ∈ edits, Fits source edit) ∧
        ∀ a ∈ edits.zipIdx, ∀ b ∈ edits.zipIdx, ¬ Clash a b := by
  obtain ⟨placed, hperm, hbefore, horder⟩ := exists_places_inOrder edits
  rw [validate_eq_ok_iff, horder, List.pairwise_map,
    pairwise_iff_of_asymm appliesBefore_asymm hbefore]
  simp only [hperm.mem_iff, clash_iff, not_and, not_not]

/-! ## The clash that is reported -/

/-- No span is in conflict by itself. -/
theorem forM_checkSpan_ne_conflict (source : String) (edits : List Edit) (first second : Span) :
    edits.forM (checkSpan source) ≠ .error (.conflict first second) := by
  induction edits with
  | nil => simp [List.forM, pure, Except.pure]
  | cons edit edits ih =>
      rw [List.forM]
      cases hspan : checkSpan source edit with
      | error fault =>
          rintro ⟨⟩
          unfold checkSpan at hspan
          dsimp only at hspan
          split_ifs at hspan <;> cases hspan
      | ok _ => exact ih

theorem sweep_of_validate {source : String} {edits : List Edit} {first second : Span}
    (h : validate source edits = .error (.conflict first second)) :
    sweep none (inOrder edits) = .error (.conflict first second) := by
  rw [validate] at h
  cases hspans : edits.forM (checkSpan source) with
  | error fault =>
      rw [hspans] at h
      exact absurd (hspans.trans h) (forM_checkSpan_ne_conflict source edits first second)
  | ok _ =>
      rw [hspans] at h
      exact h

/-- The sweep reports a replacement and an edit behind it. The replacement is one that it met, or
the one it began with. -/
theorem exists_pair_of_sweep {last : Option Span} {ordered : List Edit} {first second : Span}
    (h : sweep last ordered = .error (.conflict first second)) :
    (first ∈ last ∧ ∃ b ∈ ordered, b.span = second ∧ b.conflictsWith first = true) ∨
      ∃ a b, [a, b].Sublist ordered ∧ a.isReplace = true ∧ a.span = first ∧ b.span = second ∧
        b.conflictsWith first = true := by
  induction ordered generalizing last with
  | nil => cases h
  | cons edit later ih =>
      rw [sweep] at h
      split at h
      · next taken htaken =>
        cases h
        obtain ⟨hlast, hconflict⟩ := Option.filter_eq_some_iff.mp htaken
        exact Or.inl ⟨hlast, edit, List.mem_cons_self, rfl, hconflict⟩
      · rcases ih h with ⟨hfirst, b, hb, hspan, hconflict⟩ | ⟨a, b, hsublist, hpair⟩
        · split at hfirst
          · next hreplace =>
            cases hfirst
            exact Or.inr ⟨edit, b, (List.singleton_sublist.mpr hb).cons_cons edit, hreplace, rfl,
              hspan, hconflict⟩
          · exact Or.inl ⟨hfirst, b, List.mem_cons_of_mem edit hb, hspan, hconflict⟩
        · exact Or.inr ⟨a, b, hsublist.cons edit, hpair⟩

theorem lt_stop_of_conflictsWith {edit : Edit} {taken : Span}
    (h : edit.conflictsWith taken = true) : edit.span.start < taken.stop := by
  unfold conflictsWith at h
  split at h
  · exact of_decide_eq_true h
  · exact (strictlyContains_iff.mp h).2

/-- The conflict that is reported is a clash of two edits of the batch. -/
theorem exists_clash_of_conflict {source : String} {edits : List Edit} {first second : Span}
    (h : validate source edits = .error (.conflict first second)) :
    ∃ a ∈ edits.zipIdx, ∃ b ∈ edits.zipIdx, a.1.isReplace = true ∧ a.1.span = first ∧
      b.1.span = second ∧ Clash a b := by
  obtain ⟨placed, hperm, hbefore, horder⟩ := exists_places_inOrder edits
  rcases exists_pair_of_sweep (sweep_of_validate h) with ⟨hnone, -⟩ | ⟨a, b, hsublist, hpair⟩
  · cases hnone
  · obtain ⟨hreplace, rfl, rfl, hconflict⟩ := hpair
    rw [horder] at hsublist
    -- The two edits get back the places they were supplied with.
    obtain ⟨pair, hpair, hmap⟩ := List.sublist_map_iff.mp hsublist
    match pair, hmap with
    | [a, b], hmap =>
      cases hmap
      have hab : AppliesBefore a b := by simpa using hbefore.sublist hpair
      have hmem : ∀ member ∈ [a, b], member ∈ edits.zipIdx :=
        fun member hmember => hperm.mem_iff.mp (hpair.subset hmember)
      have hover := lt_stop_of_conflictsWith hconflict
      exact ⟨a, hmem a (by simp), b, hmem b (by simp), hreplace, rfl, rfl,
        clash_iff.mpr ⟨hab, Nat.not_le.mpr hover⟩⟩

/-- The sweep finds what a comparison of all pairs finds. A batch is accepted exactly when every
edit fits the source and no two edits clash, and a conflict that is reported is a clash between a
replacement of the one span and another edit of the other span. -/
theorem validate_finds_clashes (source : String) (edits : List Edit) :
    (validate source edits = .ok () ↔
      (∀ edit ∈ edits, Fits source edit) ∧
        ∀ a ∈ edits.zipIdx, ∀ b ∈ edits.zipIdx, ¬ Clash a b) ∧
    ∀ first second, validate source edits = .error (.conflict first second) →
      ∃ a ∈ edits.zipIdx, ∃ b ∈ edits.zipIdx, a.2 ≠ b.2 ∧ a.1.isReplace = true ∧
        a.1.span = first ∧ b.1.span = second ∧ Clash a b := by
  refine ⟨validate_eq_ok_iff_not_clash, fun first second h => ?_⟩
  obtain ⟨a, ha, b, hb, hreplace, hfirst, hsecond, hclash⟩ := exists_clash_of_conflict h
  refine ⟨a, ha, b, hb, ?_, hreplace, hfirst, hsecond, hclash⟩
  intro hplace
  -- One place holds one edit, and an edit is not applied before itself.
  have hsame : a = b := by
    rw [List.mem_zipIdx_iff_getElem?] at ha hb
    rw [hplace, hb, Option.some.injEq] at ha
    exact Prod.ext ha.symm hplace
  subst hsame
  have hself := (clash_iff.mp hclash).1
  exact appliesBefore_asymm a a hself hself

/-! ## Other orders of supply -/

/-- The same edits in another order, in which edits of one kind at one offset follow one another as
before. -/
def Rearranges (supplied edits : List Edit) : Prop :=
  ∃ arranged : List (Edit × Nat), arranged.Perm edits.zipIdx ∧
    arranged.map Prod.fst = supplied ∧ arranged.Pairwise TiesInPlace

section Rearranged

variable {supplied edits : List Edit} (h : Rearranges supplied edits)
include h

theorem perm_of_rearranges : supplied.Perm edits := by
  obtain ⟨arranged, hperm, rfl, -⟩ := h
  simpa using hperm.map Prod.fst

/-- Both orders of supply lead to one order of positions. -/
theorem inOrder_of_rearranges : inOrder supplied = inOrder edits := by
  obtain ⟨arranged, hperm, rfl, hties⟩ := h
  obtain ⟨placed, hplaced, hbefore, horder⟩ := exists_inOrder_of_tiesInPlace hties
  obtain ⟨placed', hplaced', hbefore', horder'⟩ := exists_places_inOrder edits
  have hmem : ∀ member, member ∈ placed ↔ member ∈ placed' := by
    intro member
    rw [hplaced.mem_iff, hperm.mem_iff, hplaced'.mem_iff]
  rw [horder, horder', eq_of_pairwise_of_mem_iff appliesBefore_asymm hbefore hbefore' hmem]

theorem validate_of_rearranges (source : String) :
    validate source supplied = .ok () ↔ validate source edits = .ok () := by
  simp only [validate_eq_ok_iff, inOrder_of_rearranges h, (perm_of_rearranges h).mem_iff]

end Rearranged

theorem apply_eq_ok_iff {source text : String} {edits : List Edit} :
    apply source edits = .ok text ↔
      validate source edits = .ok () ∧
        (applyBackwards source (inOrder edits)).getD source = text := by
  rw [apply]
  cases validate source edits with
  | error fault => simp [bind, Except.bind]
  | ok _ => simp [bind, Except.bind, pure, Except.pure]

/-- An order of supply that leaves ties in place changes neither whether a batch is applied nor the
text that results. -/
theorem apply_of_rearranges {supplied edits : List Edit} (h : Rearranges supplied edits)
    (source : String) :
    ((∃ fault, apply source supplied = .error fault) ↔
      ∃ fault, apply source edits = .error fault) ∧
    ∀ text, apply source supplied = .ok text ↔ apply source edits = .ok text := by
  have htexts : ∀ text, apply source supplied = .ok text ↔ apply source edits = .ok text := by
    intro text
    rw [apply_eq_ok_iff, apply_eq_ok_iff, validate_of_rearranges h, inOrder_of_rearranges h]
  have hfails : ∀ batch, (∃ fault, apply source batch = .error fault) ↔
      ∀ text, apply source batch ≠ .ok text := by
    intro batch
    cases apply source batch <;> simp
  refine ⟨?_, htexts⟩
  simp only [hfails, Ne, htexts]

/-- Edits of all kinds at one offset, two of them equal, supplied with the kinds the other way
round. -/
theorem apply_of_rearranges_kinds :
    let source := "abc"
    let edits : List Edit :=
      [.insertBefore 1 "x", .replace ⟨1, 2⟩ "y", .insertBefore 1 "x", .insertAfter 1 "z"]
    let supplied : List Edit :=
      [.replace ⟨1, 2⟩ "y", .insertAfter 1 "z", .insertBefore 1 "x", .insertBefore 1 "x"]
    Rearranges supplied edits ∧ apply source edits = .ok "azxxyc" ∧
      ((∃ fault, apply source supplied = .error fault) ↔
        ∃ fault, apply source edits = .error fault) ∧
      ∀ text, apply source supplied = .ok text ↔ apply source edits = .ok text := by
  intro source edits supplied
  have hrearranges : Rearranges supplied edits := by
    refine ⟨[(.replace ⟨1, 2⟩ "y", 1), (.insertAfter 1 "z", 3), (.insertBefore 1 "x", 0),
      (.insertBefore 1 "x", 2)], by decide, rfl, ?_⟩
    simp [TiesInPlace, span, Span.empty, rank]
  have happly : apply source edits = .ok "azxxyc" := by
    simp [source, edits, apply, validate, checkSpan, size, byteLength, isBoundary, cut?,
      Char.utf8Size, inOrder, List.mergeSort, List.MergeSort.Internal.splitInTwo, precedes, span,
      Span.empty, rank, sweep, Option.filter, isReplace, applyBackwards, overwrite?, text, bind,
      Except.bind, pure, Except.pure]
  exact ⟨hrearranges, happly, apply_of_rearranges hrearranges source⟩

end CachedCalls.Edit
