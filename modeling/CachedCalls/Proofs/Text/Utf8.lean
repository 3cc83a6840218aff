/-
# Characters of one byte

In UTF-8 a byte below 0x80 stands for a character of its own and occurs in no other
character. So where the byte of such a character stands among the bytes of a text, the
character stands in the text, and the text falls apart there as its bytes do. Bytes
that begin with those of a word of such characters belong to a text that begins with
the word.
-/

import Mathlib.Data.Char

namespace CachedCalls.Text

/-- The bytes of characters. -/
def utf8 (cs : List Char) : List UInt8 :=
  cs.flatMap String.utf8EncodeChar

theorem utf8_cons (c : Char) (cs : List Char) :
    utf8 (c :: cs) = String.utf8EncodeChar c ++ utf8 cs := rfl

theorem utf8_append (front back : List Char) : utf8 (front ++ back) = utf8 front ++ utf8 back :=
  List.flatMap_append

theorem utf8EncodeChar_ne_nil (c : Char) : String.utf8EncodeChar c ≠ [] := by
  intro h
  have hsize := String.length_utf8EncodeChar c
  rw [h] at hsize
  exact absurd hsize.symm (Nat.ne_of_gt c.utf8Size_pos)

theorem utf8_eq_nil {cs : List Char} (h : utf8 cs = []) : cs = [] := by
  cases cs with
  | nil => rfl
  | cons c cs => exact absurd (List.append_eq_nil_iff.mp h).1 (utf8EncodeChar_ne_nil c)

/-- The bytes of longer characters are all at least 0x80. -/
theorem le_of_mem_utf8EncodeChar {c : Char} (hc : c.utf8Size ≠ 1) {b : UInt8}
    (h : b ∈ String.utf8EncodeChar c) : 0x80 ≤ b.toNat := by
  have hor : ∀ lead : UInt8, 0x80 ≤ lead.toNat → ∀ a : UInt8, 0x80 ≤ (a ||| lead).toNat := by
    intro lead hlead a
    rw [UInt8.toNat_or]
    exact Nat.le_trans hlead Nat.right_le_or
  obtain hone | htwo | hthree | hfour := c.utf8Size_eq
  · exact absurd hone hc
  · rw [String.utf8EncodeChar_eq_cons_cons htwo] at h
    simp only [List.mem_cons, List.not_mem_nil, or_false] at h
    rcases h with rfl | rfl <;> exact hor _ (by decide) _
  · rw [String.utf8EncodeChar_eq_cons_cons_cons hthree] at h
    simp only [List.mem_cons, List.not_mem_nil, or_false] at h
    rcases h with rfl | rfl | rfl <;> exact hor _ (by decide) _
  · rw [String.utf8EncodeChar_eq_cons_cons_cons_cons hfour] at h
    simp only [List.mem_cons, List.not_mem_nil, or_false] at h
    rcases h with rfl | rfl | rfl | rfl <;> exact hor _ (by decide) _

theorem toNat_toUInt8_val {c : Char} (hc : c.utf8Size = 1) : c.val.toUInt8.toNat = c.val.toNat := by
  have hval := UInt32.le_iff_toNat_le.mp (Char.utf8Size_eq_one_iff.mp hc)
  rw [UInt32.toNat_toUInt8, Nat.mod_eq_of_lt (Nat.lt_of_le_of_lt hval (by decide))]

/-- The byte of a character of one byte is in no other character. -/
theorem eq_of_mem_utf8EncodeChar {c d : Char} (hd : d.utf8Size = 1)
    (h : d.val.toUInt8 ∈ String.utf8EncodeChar c) : c = d := by
  have hlt : d.val.toUInt8.toNat ≤ 0x7F := by
    rw [toNat_toUInt8_val hd]
    exact UInt32.le_iff_toNat_le.mp (Char.utf8Size_eq_one_iff.mp hd)
  have hc : c.utf8Size = 1 := by
    by_contra hlong
    exact absurd (le_of_mem_utf8EncodeChar hlong h) (by omega)
  rw [String.utf8EncodeChar_eq_singleton hc, List.mem_singleton] at h
  have hnat := congrArg UInt8.toNat h
  rw [toNat_toUInt8_val hd, toNat_toUInt8_val hc] at hnat
  exact Char.ext (UInt32.toNat.inj hnat.symm)

/-- A text falls apart at a character of one byte as its bytes do. -/
theorem utf8_eq_append_cons_iff {d : Char} (hd : d.utf8Size = 1) {cs : List Char}
    {before after : List UInt8} :
    utf8 cs = before ++ d.val.toUInt8 :: after ↔
      ∃ front back, cs = front ++ d :: back ∧ utf8 front = before ∧ utf8 back = after := by
  have hsingle := String.utf8EncodeChar_eq_singleton hd
  constructor
  · intro h
    induction cs generalizing before with
    | nil => exact absurd h.symm (by simp [utf8])
    | cons c cs ih =>
        rw [utf8_cons] at h
        obtain ⟨inside, rfl, hrest⟩ | ⟨inside, hc, hrest⟩ := List.append_eq_append_iff.mp h
        · obtain ⟨front, back, rfl, rfl, hback⟩ := ih hrest
          exact ⟨c :: front, back, rfl, rfl, hback⟩
        · cases inside with
          | nil =>
              have hbehind : utf8 cs = [] ++ d.val.toUInt8 :: after := hrest.symm
              obtain ⟨front, back, rfl, hfront, hback⟩ := ih hbehind
              rw [List.append_nil] at hc
              obtain rfl := utf8_eq_nil hfront
              exact ⟨[c], back, rfl, by rw [← hc, utf8_cons]; exact List.append_nil _, hback⟩
          | cons b inside =>
              -- The byte is one of the first character, so it is this character.
              obtain ⟨rfl, rfl⟩ := List.cons.inj hrest
              obtain rfl := eq_of_mem_utf8EncodeChar hd (c := c) (by simp [hc])
              rw [hsingle] at hc
              obtain ⟨rfl, hinside⟩ := List.append_eq_singleton_iff.mp hc.symm |>.resolve_right
                (by simp)
              cases hinside
              exact ⟨[], cs, rfl, rfl, rfl⟩
  · rintro ⟨front, back, rfl, rfl, rfl⟩
    rw [utf8_append, utf8_cons, hsingle, List.singleton_append]

theorem utf8_eq_utf8_append_iff {word cs : List Char} (hword : ∀ c ∈ word, c.utf8Size = 1)
    {after : List UInt8} :
    utf8 cs = utf8 word ++ after ↔ ∃ back, cs = word ++ back ∧ utf8 back = after := by
  constructor
  · intro h
    induction word generalizing cs with
    | nil => exact ⟨cs, rfl, h⟩
    | cons d word ih =>
        rw [List.forall_mem_cons] at hword
        rw [utf8_cons, String.utf8EncodeChar_eq_singleton hword.1, List.append_assoc] at h
        have hfirst : utf8 cs = [] ++ d.val.toUInt8 :: (utf8 word ++ after) := h
        obtain ⟨front, back, rfl, hfront, hback⟩ := (utf8_eq_append_cons_iff hword.1).mp hfirst
        obtain rfl := utf8_eq_nil hfront
        obtain ⟨rest, rfl, hrest⟩ := ih hword.2 hback
        exact ⟨rest, rfl, hrest⟩
  · rintro ⟨back, rfl, rfl⟩
    exact utf8_append word back

end CachedCalls.Text
