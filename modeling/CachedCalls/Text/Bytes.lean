/-
# Byte positions in text

Offsets into a source text count the bytes of its UTF-8 form, while the text is a sequence of
characters. A position is usable only where one character ends and the next begins, so cutting is
partial: it fails past the end and inside a character, and it never invents a nearby position.
All recursion is on the characters themselves; no byte array is ever indexed.
-/

namespace CachedCalls.Text

/-- Number of bytes in the UTF-8 form of a character sequence. -/
def byteLength : List Char → Nat
  | [] => 0
  | c :: cs => c.utf8Size + byteLength cs

/-- The measure adds up along concatenation, which is what lets a cut be described by its parts. -/
@[simp]
theorem byteLength_append (xs ys : List Char) :
    byteLength (xs ++ ys) = byteLength xs + byteLength ys := by
  induction xs with
  | nil => simp [byteLength]
  | cons c cs ih => simp [byteLength, ih, Nat.add_assoc]

/-- Cut a character sequence after exactly `n` bytes. There is no answer when byte `n` lies past
the end or inside a character. -/
def cut? : Nat → List Char → Option (List Char × List Char)
  | 0, cs => some ([], cs)
  | _ + 1, [] => none
  | n + 1, c :: cs =>
    if c.utf8Size ≤ n + 1 then
      (cut? (n + 1 - c.utf8Size) cs).map fun parts => (c :: parts.1, parts.2)
    else none

/-- A successful cut loses nothing and its first part has exactly the requested size. -/
theorem append_of_cut? {n : Nat} {cs before after : List Char}
    (h : cut? n cs = some (before, after)) : cs = before ++ after ∧ byteLength before = n := by
  induction cs generalizing n before with
  | nil =>
    cases n with
    | zero => simp_all [cut?, byteLength]
    | succ n => simp [cut?] at h
  | cons c cs ih =>
    cases n with
    | zero => simp_all [cut?, byteLength]
    | succ n =>
      simp only [cut?] at h
      split at h
      · obtain ⟨parts, hcut, heq⟩ := Option.map_eq_some_iff.1 h
        obtain ⟨rfl, rfl⟩ := Prod.mk.inj heq
        obtain ⟨happ, hlen⟩ := ih hcut
        exact ⟨by rw [happ]; rfl, by simp only [byteLength, hlen]; omega⟩
      · simp at h

/-- Every position between two characters can be cut at. -/
theorem cut?_append (before after : List Char) :
    cut? (byteLength before) (before ++ after) = some (before, after) := by
  induction before with
  | nil => simp [byteLength, cut?]
  | cons c cs ih =>
    have hpos := Char.utf8Size_pos c
    obtain ⟨n, hn⟩ : ∃ n, c.utf8Size + byteLength cs = n + 1 := ⟨_, (Nat.succ_pred (by omega)).symm⟩
    have hrest : n + 1 - c.utf8Size = byteLength cs := by omega
    have hfit : c.utf8Size ≤ n + 1 := by omega
    simp [byteLength, hn, cut?, hrest, hfit, ih]

/-- Size of a text in bytes. -/
def size (text : String) : Nat :=
  byteLength text.toList

/-- Whether a byte offset of `text` lies at its start, at its end or between two characters. -/
def isBoundary (text : String) (offset : Nat) : Bool :=
  (cut? offset text.toList).isSome

end CachedCalls.Text
