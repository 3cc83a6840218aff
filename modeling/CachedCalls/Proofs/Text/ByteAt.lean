/-
# The byte at an offset

A scanner that walks along the bytes of a text sees a byte at each offset, and the
byte may be any of those of a longer character. Here a byte is read as the
character with its number. So read, a character of one byte is itself, and every
byte of a longer character is again a character of more than one byte. A
comparison with a character of one byte therefore succeeds only at an offset where
this character stands.
-/

import CachedCalls.Proofs.Text.Slice
import CachedCalls.Proofs.Text.Utf8

namespace CachedCalls.Text

theorem length_utf8 (cs : List Char) : (utf8 cs).length = byteLength cs := by
  induction cs with
  | nil => rfl
  | cons c cs ih => rw [utf8_cons, List.length_append, String.length_utf8EncodeChar, ih, byteLength]

/-! ## Bytes read as characters -/

theorem utf8Size_eq_one_iff_toNat {c : Char} : c.utf8Size = 1 ↔ c.toNat ≤ 0x7F := by
  rw [Char.utf8Size_eq_one_iff, UInt32.le_iff_toNat_le]
  rfl

theorem ne_of_utf8Size_ne_one {c d : Char} (hc : c.utf8Size ≠ 1) (hd : d.utf8Size = 1) : c ≠ d := by
  rintro rfl
  exact hc hd

theorem ofUInt8_toUInt8 {c : Char} (hc : c.utf8Size = 1) : Char.ofUInt8 c.val.toUInt8 = c := by
  refine Char.ext (UInt32.toNat.inj ?_)
  show c.val.toUInt8.toUInt32.toNat = c.val.toNat
  rw [UInt8.toNat_toUInt32, toNat_toUInt8_val hc]

/-- A byte of a longer character is read as a character of more than one byte. -/
theorem utf8Size_ofUInt8_ne_one {c : Char} (hc : c.utf8Size ≠ 1) {b : UInt8}
    (h : b ∈ String.utf8EncodeChar c) : (Char.ofUInt8 b).utf8Size ≠ 1 := by
  have hhigh := le_of_mem_utf8EncodeChar hc h
  have hnat : (Char.ofUInt8 b).toNat = b.toNat := UInt8.toNat_toUInt32 b
  rw [Ne, utf8Size_eq_one_iff_toNat, hnat]
  omega

/-- The first byte of a character. -/
def lead (c : Char) : Char :=
  Char.ofUInt8 ((String.utf8EncodeChar c).head (utf8EncodeChar_ne_nil c))

theorem lead_of_utf8Size_eq_one {c : Char} (hc : c.utf8Size = 1) : lead c = c := by
  have hsingle := String.utf8EncodeChar_eq_singleton hc
  simp only [lead, hsingle, List.head_cons]
  exact ofUInt8_toUInt8 hc

theorem utf8Size_lead_ne_one {c : Char} (hc : c.utf8Size ≠ 1) : (lead c).utf8Size ≠ 1 :=
  utf8Size_ofUInt8_ne_one hc (List.head_mem _)

/-- A character begins with a character of one byte only if it is that character. -/
theorem lead_eq_iff {c d : Char} (hd : d.utf8Size = 1) : lead c = d ↔ c = d := by
  by_cases hc : c.utf8Size = 1
  · rw [lead_of_utf8Size_eq_one hc]
  · exact iff_of_false (ne_of_utf8Size_ne_one (utf8Size_lead_ne_one hc) hd)
      (ne_of_utf8Size_ne_one hc hd)

/-- The bytes of a character: the first, and others that belong to no character of one byte. -/
theorem exists_utf8EncodeChar_eq_cons (c : Char) :
    ∃ b tail, String.utf8EncodeChar c = b :: tail ∧ Char.ofUInt8 b = lead c ∧
      tail.length + 1 = c.utf8Size ∧ ∀ t ∈ tail, (Char.ofUInt8 t).utf8Size ≠ 1 := by
  obtain ⟨b, tail, hbytes⟩ := List.exists_cons_of_ne_nil (utf8EncodeChar_ne_nil c)
  have hsize := String.length_utf8EncodeChar c
  rw [hbytes, List.length_cons] at hsize
  refine ⟨b, tail, hbytes, by simp only [lead, hbytes, List.head_cons], hsize, fun t ht => ?_⟩
  have hc : c.utf8Size ≠ 1 := by
    have htail := List.length_pos_of_mem ht
    omega
  exact utf8Size_ofUInt8_ne_one hc (by rw [hbytes]; exact List.mem_cons_of_mem b ht)

/-! ## Offsets -/

/-- The byte at an offset of a text. -/
def byteAt? (text : String) (offset : Nat) : Option Char :=
  (utf8 text.toList)[offset]?.map Char.ofUInt8

theorem byteAt?_eq_none_iff {text : String} {offset : Nat} :
    byteAt? text offset = none ↔ size text ≤ offset := by
  rw [byteAt?, Option.map_eq_none_iff, List.getElem?_eq_none_iff, length_utf8, size]

theorem lt_size_of_byteAt? {text : String} {offset : Nat} {b : Char}
    (h : byteAt? text offset = some b) : offset < size text := by
  rw [← Nat.not_le, ← byteAt?_eq_none_iff, h]
  exact Option.some_ne_none b

/-- Behind so many bytes the text goes on with these characters. -/
def GoesOn (text : String) (offset : Nat) (cs : List Char) : Prop :=
  ∃ taken, text.toList = taken ++ cs ∧ byteLength taken = offset

theorem goesOn_zero (text : String) : GoesOn text 0 text.toList :=
  ⟨[], rfl, rfl⟩

namespace GoesOn

variable {text : String} {offset : Nat} {c : Char} {cs : List Char}

theorem append {front back : List Char} (h : GoesOn text offset (front ++ back)) :
    GoesOn text (offset + byteLength front) back := by
  obtain ⟨taken, htext, rfl⟩ := h
  exact ⟨taken ++ front, by rw [htext, List.append_assoc], byteLength_append taken front⟩

theorem next (h : GoesOn text offset (c :: cs)) : GoesOn text (offset + c.utf8Size) cs := by
  have hparts : GoesOn text offset ([c] ++ cs) := h
  exact hparts.append

theorem size_eq (h : GoesOn text offset cs) : size text = offset + byteLength cs := by
  obtain ⟨taken, htext, rfl⟩ := h
  rw [size, htext, byteLength_append]

/-- The text can be cut where it goes on with whole characters. -/
theorem exists_cut? (h : GoesOn text offset cs) :
    ∃ taken, cut? offset text.toList = some (taken, cs) := by
  obtain ⟨taken, htext, hlength⟩ := h
  exact ⟨taken, cut?_eq_some_iff.mpr ⟨htext, hlength⟩⟩

theorem drop_utf8 (h : GoesOn text offset cs) : (utf8 text.toList).drop offset = utf8 cs := by
  obtain ⟨taken, htext, rfl⟩ := h
  rw [htext, utf8_append, ← length_utf8, List.drop_left]

theorem byteAt?_add (h : GoesOn text offset cs) (k : Nat) :
    byteAt? text (offset + k) = (utf8 cs)[k]?.map Char.ofUInt8 := by
  rw [byteAt?, ← h.drop_utf8, List.getElem?_drop]

theorem byteAt?_nil (h : GoesOn text offset []) : byteAt? text offset = none := by
  rw [byteAt?_eq_none_iff, h.size_eq]
  rfl

theorem byteAt?_cons (h : GoesOn text offset (c :: cs)) : byteAt? text offset = some (lead c) := by
  obtain ⟨b, tail, hbytes, hb, -⟩ := exists_utf8EncodeChar_eq_cons c
  have hfirst := h.byteAt?_add 0
  rw [Nat.add_zero, utf8_cons, hbytes] at hfirst
  rw [hfirst, ← hb]
  rfl

theorem byteAt?_of_utf8Size_eq_one (h : GoesOn text offset (c :: cs)) (hc : c.utf8Size = 1) :
    byteAt? text offset = some c := by
  rw [h.byteAt?_cons, lead_of_utf8Size_eq_one hc]

/-- A character of one byte is seen where it stands and nowhere else. -/
theorem byteAt?_eq_some_iff (h : GoesOn text offset cs) {d : Char} (hd : d.utf8Size = 1) :
    byteAt? text offset = some d ↔ cs.head? = some d := by
  cases cs with
  | nil => simp [h.byteAt?_nil]
  | cons c cs => rw [h.byteAt?_cons, Option.some_inj, lead_eq_iff hd, List.head?_cons, Option.some_inj]

/-- Inside a character no character of one byte is seen. -/
theorem exists_byteAt?_inside (h : GoesOn text offset (c :: cs)) {k : Nat} (hpos : 0 < k)
    (hlt : k < c.utf8Size) : ∃ b, byteAt? text (offset + k) = some b ∧ b.utf8Size ≠ 1 := by
  obtain ⟨b, tail, hbytes, -, hsize, htail⟩ := exists_utf8EncodeChar_eq_cons c
  obtain ⟨before, rfl⟩ := Nat.exists_eq_succ_of_ne_zero (Nat.ne_of_gt hpos)
  have hinside : before < tail.length := by omega
  refine ⟨Char.ofUInt8 tail[before], ?_, htail _ (List.getElem_mem hinside)⟩
  rw [h.byteAt?_add, utf8_cons, hbytes, List.cons_append, List.getElem?_cons_succ,
    List.getElem?_append_left hinside, List.getElem?_eq_getElem hinside, Option.map_some]

/-- What steps over bytes beyond those of characters of one byte gets from behind the first byte of
a character to its end. -/
theorem of_end (h : GoesOn text offset (c :: cs)) {P : Nat → Prop}
    (hstep : ∀ i b, byteAt? text i = some b → b.utf8Size ≠ 1 → P (i + 1) → P i)
    (hend : P (offset + c.utf8Size)) : P (offset + 1) := by
  have hinside : ∀ k < c.utf8Size, 1 ≤ k → P (offset + (k + 1)) → P (offset + k) := by
    intro k hlt hpos hnext
    obtain ⟨b, hb, hlong⟩ := h.exists_byteAt?_inside hpos hlt
    exact hstep (offset + k) b hb hlong hnext
  exact Nat.decreasingInduction' (P := fun k => P (offset + k)) hinside c.utf8Size_pos hend

end GoesOn

end CachedCalls.Text
