/-
# Cutting and slicing a text

`cut?` and `slice?` are partial because an offset may leave the text or split a
character. This module says exactly when they answer and what the answer is:
a cut is a decomposition of the text whose first part has the requested size.
From that one fact follow the laws the rest of the theory uses. Slices exist
between any two usable offsets in ascending order, they are unique, and two
slices that meet concatenate to the slice of the joined range.
-/

import CachedCalls.Span

namespace CachedCalls

namespace Text

/-- A cut is precisely a decomposition with a first part of the requested
size. There is at most one, because every character has at least one byte. -/
theorem cut?_eq_some_iff {n : Nat} {cs before after : List Char} :
    cut? n cs = some (before, after) ↔
      cs = before ++ after ∧ byteLength before = n := by
  constructor
  · exact append_of_cut?
  · rintro ⟨rfl, rfl⟩
    exact cut?_append before after

theorem byteLength_eq_zero_iff {cs : List Char} : byteLength cs = 0 ↔ cs = [] := by
  cases cs with
  | nil => simp [byteLength]
  | cons c cs =>
      have hpos := Char.utf8Size_pos c
      simp only [byteLength, reduceCtorEq, iff_false]
      omega

theorem size_pos_iff {text : String} : 0 < size text ↔ text ≠ "" := by
  rw [Nat.pos_iff_ne_zero, size, Ne, byteLength_eq_zero_iff, String.toList_eq_nil_iff]

/-- The later of two cuts of one text extends the earlier one. -/
theorem exists_between_of_byteLength_le {a b c d : List Char}
    (happ : a ++ b = c ++ d) (hle : byteLength a ≤ byteLength c) :
    ∃ between, c = a ++ between ∧ b = between ++ d := by
  rcases List.append_eq_append_iff.mp happ with ⟨between, hc, hb⟩ | ⟨surplus, ha, hd⟩
  · exact ⟨between, hc, hb⟩
  · have hzero : byteLength surplus = 0 := by
      rw [ha, byteLength_append] at hle
      omega
    rw [byteLength_eq_zero_iff] at hzero
    subst hzero
    exact ⟨[], by simpa using ha.symm, by simpa using hd.symm⟩

/-- Two decompositions of one text whose first parts have one size are the same. -/
theorem eq_and_eq_of_byteLength_eq {a b c d : List Char} (happ : a ++ b = c ++ d)
    (hlen : byteLength a = byteLength c) : a = c ∧ b = d := by
  have hcut : cut? (byteLength a) (a ++ b) = some (c, d) := cut?_eq_some_iff.mpr ⟨happ, hlen.symm⟩
  rw [cut?_append, Option.some.injEq, Prod.mk.injEq] at hcut
  exact hcut

/-- An offset is usable exactly when the text decomposes there. -/
theorem isBoundary_iff {source : String} {offset : Nat} :
    isBoundary source offset = true ↔
      ∃ before after, source.toList = before ++ after ∧ byteLength before = offset := by
  rw [isBoundary, Option.isSome_iff_exists]
  constructor
  · rintro ⟨⟨before, after⟩, hcut⟩
    exact ⟨before, after, cut?_eq_some_iff.mp hcut⟩
  · rintro ⟨before, after, hparts⟩
    exact ⟨(before, after), cut?_eq_some_iff.mpr hparts⟩

theorem isBoundary_zero (source : String) : isBoundary source 0 = true :=
  isBoundary_iff.mpr ⟨[], source.toList, rfl, rfl⟩

theorem isBoundary_size (source : String) : isBoundary source (size source) = true :=
  isBoundary_iff.mpr ⟨source.toList, [], (List.append_nil _).symm, rfl⟩

theorem le_size_of_isBoundary {source : String} {offset : Nat}
    (h : isBoundary source offset = true) : offset ≤ size source := by
  obtain ⟨before, after, happ, rfl⟩ := isBoundary_iff.mp h
  rw [size, happ, byteLength_append]
  exact Nat.le_add_right _ _

end Text

namespace Span

open Text

/-- A slice is the middle of a decomposition of the source whose parts end at
the two bounds of the span. -/
theorem slice?_eq_some_iff {span : Span} {source text : String} :
    span.slice? source = some text ↔
      ∃ before after, source.toList = before ++ (text.toList ++ after) ∧
        byteLength before = span.start ∧
        byteLength before + byteLength text.toList = span.stop := by
  unfold slice?
  constructor
  · intro h
    split at h
    · cases h
    · next hforward =>
      simp only [bind, Option.bind_eq_some_iff, pure, Option.some.injEq, Prod.exists] at h
      obtain ⟨before, rest, hstart, inside, after, hstop, rfl⟩ := h
      obtain ⟨happ, hbefore⟩ := cut?_eq_some_iff.mp hstart
      obtain ⟨rfl, hinside⟩ := cut?_eq_some_iff.mp hstop
      refine ⟨before, after, by simpa using happ, hbefore, ?_⟩
      simp only [String.toList_ofList]
      omega
  · rintro ⟨before, after, happ, hstart, hstop⟩
    rw [if_neg (by omega)]
    have hfirst : cut? span.start source.toList = some (before, text.toList ++ after) :=
      cut?_eq_some_iff.mpr ⟨happ, hstart⟩
    have hsecond : cut? (span.stop - span.start) (text.toList ++ after) =
        some (text.toList, after) :=
      cut?_eq_some_iff.mpr ⟨rfl, by omega⟩
    simp [hfirst, hsecond]

/-- Nothing is required of a span for a slice to exist beyond ascending bounds
at usable offsets. -/
theorem exists_slice? {source : String} {start stop : Nat} (hle : start ≤ stop)
    (hstart : isBoundary source start = true) (hstop : isBoundary source stop = true) :
    ∃ text, slice? ⟨start, stop⟩ source = some text := by
  obtain ⟨a, b, hab, rfl⟩ := isBoundary_iff.mp hstart
  obtain ⟨c, d, hcd, rfl⟩ := isBoundary_iff.mp hstop
  obtain ⟨between, rfl, rfl⟩ := exists_between_of_byteLength_le (hab.symm.trans hcd) hle
  refine ⟨String.ofList between, slice?_eq_some_iff.mpr ⟨a, d, ?_, rfl, ?_⟩⟩
  · simpa using hab
  · simp

section Bounds

variable {span : Span} {source text : String} (h : span.slice? source = some text)
include h

theorem start_le_stop_of_slice? : span.start ≤ span.stop := by
  obtain ⟨before, after, -, hstart, hstop⟩ := slice?_eq_some_iff.mp h
  omega

theorem isBoundary_start_of_slice? : isBoundary source span.start = true := by
  obtain ⟨before, after, happ, hstart, -⟩ := slice?_eq_some_iff.mp h
  exact isBoundary_iff.mpr ⟨before, text.toList ++ after, happ, hstart⟩

theorem isBoundary_stop_of_slice? : isBoundary source span.stop = true := by
  obtain ⟨before, after, happ, -, hstop⟩ := slice?_eq_some_iff.mp h
  refine isBoundary_iff.mpr ⟨before ++ text.toList, after, by simpa using happ, ?_⟩
  rw [byteLength_append, hstop]

/-- The size of a slice is the distance of the bounds. -/
theorem size_of_slice? : span.start + size text = span.stop := by
  obtain ⟨before, after, -, hstart, hstop⟩ := slice?_eq_some_iff.mp h
  rw [size]
  omega

end Bounds

/-- Slices that meet concatenate. -/
theorem slice?_append {source first second : String} {a b c : Nat}
    (hfirst : slice? ⟨a, b⟩ source = some first)
    (hsecond : slice? ⟨b, c⟩ source = some second) :
    slice? ⟨a, c⟩ source = some (first ++ second) := by
  obtain ⟨before, rest, happ, hstart, hmid⟩ := slice?_eq_some_iff.mp hfirst
  obtain ⟨front, after, happ', hmid', hstop⟩ := slice?_eq_some_iff.mp hsecond
  dsimp only at hstart hmid hmid' hstop
  -- Both decompositions split the source at `b`, so their front parts agree.
  have hsame : front ++ (second.toList ++ after) = (before ++ first.toList) ++ rest := by
    rw [← happ', happ, List.append_assoc]
  obtain ⟨rfl, rfl⟩ := eq_and_eq_of_byteLength_eq hsame (by rw [byteLength_append, hmid, hmid'])
  refine slice?_eq_some_iff.mpr ⟨before, after, ?_, hstart, ?_⟩
  · simpa using happ'
  · rw [byteLength_append] at hstop
    simp only [String.toList_append, byteLength_append]
    omega

/-- The whole text is the slice from its start to its end. -/
theorem slice?_zero_size (source : String) : slice? ⟨0, size source⟩ source = some source :=
  slice?_eq_some_iff.mpr ⟨[], [], by simp, rfl, by simp [size, byteLength]⟩

/-- An empty span at a usable offset holds the empty text. -/
theorem slice?_empty {source : String} {offset : Nat}
    (h : isBoundary source offset = true) : slice? ⟨offset, offset⟩ source = some "" := by
  obtain ⟨before, after, happ, hlen⟩ := isBoundary_iff.mp h
  exact slice?_eq_some_iff.mpr ⟨before, after, by simpa using happ, hlen, by simpa [byteLength]⟩

end Span

end CachedCalls
