/-
# Editing in place

The loop changes one buffer from the last edit to the first, with offsets that
refer to the unchanged source. It is safe because of an invariant of its steps:
when an edit is reached, the buffer still begins with the source up to the end
of the bytes that edit takes away. The offsets of the edit are then usable in
the buffer as they were in the source, whatever the tail has become, and the
loop ends with the text of a single walk over the source in the order of
positions. That order is strict once edits carry their supplied places.
-/

import CachedCalls.Proofs.Edit.Acceptance
import CachedCalls.Proofs.Edit.Splice
import CachedCalls.Proofs.Sorting

namespace CachedCalls.Edit

open Text

/-! ## The order of positions with supplied places -/

/-- The order of edits with their supplied places: by start, then insertions
behind the preceding text, insertions in front of the following text and
replacements, then by place. -/
def AppliesBefore (a b : Edit × Nat) : Prop :=
  a.1.span.start < b.1.span.start ∨
    a.1.span.start = b.1.span.start ∧
      (a.1.rank < b.1.rank ∨ a.1.rank = b.1.rank ∧ a.2 < b.2)

theorem appliesBefore_asymm (a b : Edit × Nat) (hab : AppliesBefore a b) : ¬ AppliesBefore b a := by
  unfold AppliesBefore at *
  omega

/-- Edits of one kind at one offset stand in the order of their places. -/
def TiesInPlace (a b : Edit × Nat) : Prop :=
  a.1.span.start = b.1.span.start → a.1.rank = b.1.rank → a.2 < b.2

/-- However edits with places are arranged, as long as ties are in place, the order of positions is
the strict order. -/
theorem exists_inOrder_of_tiesInPlace {arranged : List (Edit × Nat)}
    (hties : arranged.Pairwise TiesInPlace) :
    ∃ placed : List (Edit × Nat), placed.Perm arranged ∧ placed.Pairwise AppliesBefore ∧
      inOrder (arranged.map Prod.fst) = placed.map Prod.fst := by
  let le : Edit × Nat → Edit × Nat → Bool := fun a b => a.1.precedes b.1
  refine ⟨arranged.mergeSort le, List.mergeSort_perm _ _, ?_, ?_⟩
  · have hstable := pairwise_mergeSort_of_ties le
      (fun a b c => precedes_trans a.1 b.1 c.1) (fun a b => precedes_total a.1 b.1) hties
    apply hstable.imp
    rintro a b ⟨hab, htie⟩
    simp only [le, precedes_iff, TiesInPlace] at hab htie
    unfold AppliesBefore
    omega
  · have hmap := List.map_mergeSort (f := Prod.fst) (r := le) (s := precedes) (l := arranged)
      fun _ _ _ _ => rfl
    rw [hmap]
    rfl

/-- The order of positions is the strict order of edits with their places. -/
theorem exists_places_inOrder (edits : List Edit) :
    ∃ placed : List (Edit × Nat), placed.Perm edits.zipIdx ∧ placed.Pairwise AppliesBefore ∧
      inOrder edits = placed.map Prod.fst := by
  have hties : edits.zipIdx.Pairwise TiesInPlace :=
    (pairwise_snd_zipIdx edits).imp fun hplaces _ _ => hplaces
  have hplaced := exists_inOrder_of_tiesInPlace hties
  rwa [List.zipIdx_map_fst] at hplaced

/-! ## One step of the loop -/

theorem isBoundary_append (front rest : String) : isBoundary (front ++ rest) (size front) = true :=
  isBoundary_iff.mpr ⟨front.toList, rest.toList, String.toList_append, rfl⟩

/-- A buffer that begins with the source up to the end of an edit has room for
that edit. -/
theorem fits_of_front {source front : String} {edit : Edit} (hfits : edit.Fits source)
    (hfront : Span.slice? ⟨0, edit.span.stop⟩ source = some front) (rest : String) :
    edit.Fits (front ++ rest) := by
  obtain ⟨before, hbefore⟩ := Span.exists_slice? (Nat.zero_le _) (isBoundary_zero source)
    hfits.start_isBoundary
  obtain ⟨taken, htaken⟩ := Span.exists_slice? hfits.forward hfits.start_isBoundary
    hfits.stop_isBoundary
  have hstart : size before = edit.span.start := by
    simpa using Span.size_of_slice? hbefore
  have hstop : size front = edit.span.stop := by
    simpa using Span.size_of_slice? hfront
  have hparts : front = before ++ taken := by
    have hwhole := Span.slice?_append hbefore htaken
    rw [hfront, Option.some.injEq] at hwhole
    exact hwhole
  have hstopBoundary : isBoundary (front ++ rest) edit.span.stop = true := by
    rw [← hstop]
    exact isBoundary_append front rest
  have hstartBoundary : isBoundary (front ++ rest) edit.span.start = true := by
    rw [← hstart, hparts, String.append_assoc]
    exact isBoundary_append before (taken ++ rest)
  exact ⟨hfits.forward, le_size_of_isBoundary hstopBoundary, hstartBoundary, hstopBoundary⟩

/-- Overwriting succeeds wherever an edit fits the buffer. -/
theorem exists_overwrite?_of_fits {buffer : String} {edit : Edit} (hfits : edit.Fits buffer) :
    ∃ next, overwrite? buffer edit.span edit.text = some next := by
  obtain ⟨front, hfront⟩ := Span.exists_slice? (Nat.zero_le _) (isBoundary_zero buffer)
    hfits.start_isBoundary
  obtain ⟨taken, htaken⟩ := Span.exists_slice? hfits.forward hfits.start_isBoundary
    hfits.stop_isBoundary
  obtain ⟨rest, hrest⟩ := Span.exists_slice? hfits.inside hfits.stop_isBoundary
    (isBoundary_size buffer)
  have hbuffer : buffer = front ++ taken ++ rest := by
    have hwhole := Span.slice?_append (Span.slice?_append hfront htaken) hrest
    rw [Span.slice?_zero_size, Option.some.injEq] at hwhole
    exact hwhole
  have hstart : size front = edit.span.start := by
    simpa using Span.size_of_slice? hfront
  have hstop : size front + size taken = edit.span.stop := by
    rw [hstart]
    exact Span.size_of_slice? htaken
  rw [hbuffer]
  exact ⟨_, overwrite?_of_parts front taken rest edit.text hstart hstop⟩

/-- The loop applies an edit to the buffer that the later edits have left. -/
theorem applyBackwards_cons (source : String) (edit : Edit) (later : List Edit) :
    applyBackwards source (edit :: later) =
      (applyBackwards source later).bind fun buffer => overwrite? buffer edit.span edit.text := by
  simp only [applyBackwards, List.foldlM_reverse, List.foldrM_cons]
  rfl

/-- The invariant of the loop over edits that fit and follow one another. When
it reaches an edit, the later edits have been applied, and the buffer begins with
the source up to the end of the bytes the edit takes away. -/
theorem exists_buffer_of_follows {source : String} {ordered earlier later : List Edit} {edit : Edit}
    (hfits : ∀ edit ∈ ordered, Fits source edit) (hfollows : ordered.Pairwise Follows)
    (hordered : ordered = earlier ++ edit :: later) :
    ∃ front rest, applyBackwards source later = some (front ++ rest) ∧
      Span.slice? ⟨0, edit.span.stop⟩ source = some front := by
  subst hordered
  have hedit := hfits edit (by simp)
  have hlater : ∀ other ∈ later, Fits source other :=
    fun other hother => hfits other (by simp [hother])
  rw [List.pairwise_append, List.pairwise_cons] at hfollows
  obtain ⟨-, ⟨hbehind, hrest⟩, -⟩ := hfollows
  obtain ⟨front, hfront⟩ := Span.exists_slice? (Nat.zero_le _) (isBoundary_zero source)
    hedit.stop_isBoundary
  obtain ⟨rest, hsplice⟩ := exists_splice? hlater hrest hedit.stop_isBoundary hbehind
  exact ⟨front, rest,
    applyBackwards_of_splice? (fun other hother => (hlater other hother).forward) hfront hsplice,
    hfront⟩

/-- An accepted batch is applied in place without a step that could fail. The
edits, in the order of their starts, kinds and supplied places, are walked once
over the source; the loop over the buffer ends with the same text; and each edit
it reaches lies inside the buffer of that moment and splits none of its
characters, so that it is overwritten there. -/
theorem apply_eq_splice_of_validate {source : String} {edits : List Edit}
    (hvalid : validate source edits = .ok ()) :
    ∃ (placed : List (Edit × Nat)) (text : String),
      placed.Perm edits.zipIdx ∧
      placed.Pairwise AppliesBefore ∧
      splice? source 0 (placed.map Prod.fst) = some text ∧
      apply source edits = .ok text ∧
      applyBackwards source (placed.map Prod.fst) = some text ∧
      ∀ earlier edit later, placed.map Prod.fst = earlier ++ edit :: later →
        ∃ buffer next, applyBackwards source later = some buffer ∧ edit.Fits buffer ∧
          overwrite? buffer edit.span edit.text = some next ∧
          applyBackwards source (edit :: later) = some next := by
  obtain ⟨hfits, hfollows⟩ := validate_eq_ok_iff.mp hvalid
  obtain ⟨placed, hperm, hbefore, horder⟩ := exists_places_inOrder edits
  obtain ⟨text, hsplice, hback, happly⟩ := apply_eq_ok_of_follow hfits hfollows
  have hfitsOrder : ∀ edit ∈ inOrder edits, Fits source edit :=
    fun edit hedit => hfits edit (List.mem_mergeSort.mp hedit)
  rw [horder] at hsplice hback hfollows hfitsOrder
  refine ⟨placed, text, hperm, hbefore, hsplice, happly, hback, ?_⟩
  intro earlier edit later hsplit
  obtain ⟨front, rest, hbuffer, hfront⟩ :=
    exists_buffer_of_follows hfitsOrder hfollows hsplit
  have hroom := fits_of_front (hfitsOrder edit (by simp [hsplit])) hfront rest
  obtain ⟨next, hnext⟩ := exists_overwrite?_of_fits hroom
  refine ⟨_, next, hbuffer, hroom, hnext, ?_⟩
  rw [applyBackwards_cons, hbuffer, Option.bind_some, hnext]

/-- Edits of every kind that meet at one offset, an empty replacement and a
character of two bytes. -/
theorem apply_eq_splice_of_validate_ties :
    let source := "é;x"
    let edits : List Edit := [.replace ⟨2, 3⟩ ",", .insertBefore 2 "b", .insertAfter 3 "c",
      .replace ⟨0, 0⟩ ">", .insertAfter 2 "a"]
    validate source edits = .ok () ∧
      ∃ (placed : List (Edit × Nat)) (text : String),
        placed.Perm edits.zipIdx ∧
        placed.Pairwise AppliesBefore ∧
        splice? source 0 (placed.map Prod.fst) = some text ∧
        apply source edits = .ok text ∧
        applyBackwards source (placed.map Prod.fst) = some text ∧
        ∀ earlier edit later, placed.map Prod.fst = earlier ++ edit :: later →
          ∃ buffer next, applyBackwards source later = some buffer ∧ edit.Fits buffer ∧
            overwrite? buffer edit.span edit.text = some next ∧
            applyBackwards source (edit :: later) = some next := by
  intro source edits
  have hvalid : validate source edits = .ok () := by
    simp [source, edits, validate, checkSpan, size, byteLength, isBoundary, cut?, Char.utf8Size,
      inOrder, List.mergeSort, List.MergeSort.Internal.splitInTwo, precedes, span, Span.empty, rank,
      sweep, Option.filter, conflictsWith, isReplace, Span.strictlyContains, bind, Except.bind,
      pure, Except.pure]
  exact ⟨hvalid, apply_eq_splice_of_validate hvalid⟩

end CachedCalls.Edit
