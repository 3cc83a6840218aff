/-
# One pass over the source

Edits are applied in place from the last position to the first. The same text
results from a single walk in the other direction that never changes a buffer:
copy the source up to an edit, write the edit's text, continue behind the bytes
the edit takes away. This module defines that walk and shows that whenever it
succeeds on forward edits, the loop over the buffer succeeds with the same text.
The invariant of the loop is that it leaves alone everything in front of the
cursor of the walk.
-/

import CachedCalls.Proofs.Edit.Batch

namespace CachedCalls.Edit

open Text

/-- Walk ordered edits once from left to right. `cursor` is how far the source
has been used up. There is no answer when an edit starts behind the cursor, or
where the source cannot be cut. -/
def splice? (source : String) (cursor : Nat) : List Edit → Option String
  | [] => Span.slice? ⟨cursor, size source⟩ source
  | edit :: later => do
    let copied ← Span.slice? ⟨cursor, edit.span.start⟩ source
    let rest ← splice? source edit.span.stop later
    return copied ++ edit.text ++ rest

theorem splice?_cons_eq_some_iff {source text : String} {cursor : Nat} {edit : Edit}
    {later : List Edit} :
    splice? source cursor (edit :: later) = some text ↔
      ∃ copied rest, Span.slice? ⟨cursor, edit.span.start⟩ source = some copied ∧
        splice? source edit.span.stop later = some rest ∧
        text = copied ++ edit.text ++ rest := by
  simp only [splice?, bind, Option.bind_eq_some_iff, pure, Option.some.injEq]
  constructor
  · rintro ⟨copied, hcopied, rest, hrest, htext⟩
    exact ⟨copied, rest, hcopied, hrest, htext.symm⟩
  · rintro ⟨copied, rest, hcopied, hrest, htext⟩
    exact ⟨copied, hcopied, rest, hrest, htext.symm⟩

/-- The walk begins by copying from its cursor, so the cursor is usable. -/
theorem isBoundary_of_splice? {source text : String} {cursor : Nat} {edits : List Edit}
    (h : splice? source cursor edits = some text) : isBoundary source cursor = true := by
  cases edits with
  | nil => exact Span.isBoundary_start_of_slice? h
  | cons edit later =>
      obtain ⟨copied, rest, hcopied, -, -⟩ := splice?_cons_eq_some_iff.mp h
      exact Span.isBoundary_start_of_slice? hcopied

/-- The text of every edit arrives in the result whole. -/
theorem exists_append_of_splice? {source text : String} {cursor : Nat} {edits : List Edit}
    (h : splice? source cursor edits = some text) {edit : Edit} (hedit : edit ∈ edits) :
    ∃ before after, text = before ++ edit.text ++ after := by
  induction edits generalizing cursor text with
  | nil => cases hedit
  | cons first later ih =>
      obtain ⟨copied, rest, -, hrest, rfl⟩ := splice?_cons_eq_some_iff.mp h
      rw [List.mem_cons] at hedit
      rcases hedit with rfl | hlater
      · exact ⟨copied, rest, rfl⟩
      · obtain ⟨before, after, rfl⟩ := ih hrest hlater
        exact ⟨copied ++ first.text ++ before, after, by simp only [String.append_assoc]⟩

/-- Overwriting the middle of a buffer whose parts are known. -/
theorem overwrite?_of_parts {span : Span} (front taken rest text : String)
    (hstart : size front = span.start) (hstop : size front + size taken = span.stop) :
    overwrite? (front ++ taken ++ rest) span text = some (front ++ text ++ rest) := by
  have hfirst : cut? span.start (front.toList ++ (taken.toList ++ rest.toList)) =
      some (front.toList, taken.toList ++ rest.toList) :=
    cut?_eq_some_iff.mpr ⟨rfl, hstart⟩
  have hsecond : cut? (span.stop - span.start) (taken.toList ++ rest.toList) =
      some (taken.toList, rest.toList) :=
    cut?_eq_some_iff.mpr ⟨rfl, by unfold size at *; omega⟩
  rw [overwrite?, if_neg (by omega)]
  simp [hfirst, hsecond]

/-- The buffer after the edits behind the cursor: the untouched front followed
by what the walk produces. -/
theorem applyBackwards_of_splice? {source front text : String} {cursor : Nat}
    {edits : List Edit} (hforward : ∀ edit ∈ edits, edit.span.start ≤ edit.span.stop)
    (hfront : Span.slice? ⟨0, cursor⟩ source = some front)
    (hsplice : splice? source cursor edits = some text) :
    applyBackwards source edits = some (front ++ text) := by
  induction edits generalizing cursor front text with
  | nil =>
      have hwhole := Span.slice?_append hfront hsplice
      rw [Span.slice?_zero_size] at hwhole
      exact hwhole
  | cons edit later ih =>
      obtain ⟨copied, rest, hcopied, hrest, rfl⟩ := splice?_cons_eq_some_iff.mp hsplice
      rw [List.forall_mem_cons] at hforward
      have hfront' := Span.slice?_append hfront hcopied
      obtain ⟨taken, htaken⟩ := Span.exists_slice? hforward.1
        (Span.isBoundary_stop_of_slice? hcopied) (isBoundary_of_splice? hrest)
      -- The later edits leave `front`, `copied` and `taken` where they stand.
      have hlater := ih hforward.2 (Span.slice?_append hfront' htaken) hrest
      have hstart := Span.size_of_slice? hfront'
      have hstop := Span.size_of_slice? htaken
      dsimp only at hstart hstop
      simp only [applyBackwards, List.foldlM_reverse, List.foldrM_cons] at hlater ⊢
      rw [hlater]
      have hstep := overwrite?_of_parts (front ++ copied) taken rest edit.text
        (by simpa using hstart) (by omega)
      simpa [String.append_assoc] using hstep

/-- Over the whole source the walk and the loop produce the same text. -/
theorem applyBackwards_eq_of_splice? {source text : String} {edits : List Edit}
    (hforward : ∀ edit ∈ edits, edit.span.start ≤ edit.span.stop)
    (hsplice : splice? source 0 edits = some text) : applyBackwards source edits = some text := by
  have hback := applyBackwards_of_splice? hforward
    (Span.slice?_empty (isBoundary_zero source)) hsplice
  simpa using hback

/-- The walk succeeds on edits that fit the source and follow one another. -/
theorem exists_splice? {source : String} {cursor : Nat} {edits : List Edit}
    (hfits : ∀ edit ∈ edits, Fits source edit)
    (hfollow : edits.Pairwise fun a b => a.span.stop ≤ b.span.start)
    (hcursor : isBoundary source cursor = true)
    (hfirst : ∀ edit ∈ edits, cursor ≤ edit.span.start) :
    ∃ text, splice? source cursor edits = some text := by
  induction edits generalizing cursor with
  | nil =>
      exact Span.exists_slice? (le_size_of_isBoundary hcursor) hcursor (isBoundary_size source)
  | cons edit later ih =>
      rw [List.forall_mem_cons] at hfits hfirst
      rw [List.pairwise_cons] at hfollow
      obtain ⟨copied, hcopied⟩ :=
        Span.exists_slice? hfirst.1 hcursor hfits.1.start_isBoundary
      obtain ⟨rest, hrest⟩ := ih hfits.2 hfollow.2 hfits.1.stop_isBoundary hfollow.1
      exact ⟨_, splice?_cons_eq_some_iff.mpr ⟨copied, rest, hcopied, hrest, rfl⟩⟩

/-- A batch whose edits follow one another is applied, and the fallback to the
unchanged source is not taken. -/
theorem apply_eq_ok_of_follow {source : String} {edits : List Edit}
    (hfits : ∀ edit ∈ edits, Fits source edit)
    (hfollow : (inOrder edits).Pairwise fun a b => a.span.stop ≤ b.span.start) :
    ∃ text, splice? source 0 (inOrder edits) = some text ∧
      applyBackwards source (inOrder edits) = some text ∧ apply source edits = .ok text := by
  have hfitsOrder : ∀ edit ∈ inOrder edits, Fits source edit :=
    fun edit hedit => hfits edit (List.mem_mergeSort.mp hedit)
  obtain ⟨text, htext⟩ := exists_splice? hfitsOrder hfollow (isBoundary_zero source)
    fun _ _ => Nat.zero_le _
  have hback := applyBackwards_eq_of_splice? (fun edit hedit => (hfitsOrder edit hedit).forward)
    htext
  have hvalid := validate_eq_ok_of_staysClear hfits (hfollow.imp staysClear_of_stop_le_start)
  refine ⟨text, htext, hback, ?_⟩
  rw [apply, hvalid, hback]
  rfl

end CachedCalls.Edit
