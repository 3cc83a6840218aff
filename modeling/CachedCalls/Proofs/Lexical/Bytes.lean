/-
# Reading a text byte by byte

The machine that knows contexts reads characters, and the offset of a closing
parenthesis counts bytes. Here the machine reads the bytes themselves, each taken for
the character with its number, and keeps beside the context the number of
parentheses that stand open. It jumps over nothing, and it fails where a literal
breaks off at the end of a line and where a parenthesis closes none.

The bytes of a longer character open and close nothing, and the first of them leads
to the context that the whole character leads to. So the first byte at which no
parenthesis is left open any more is the one the scanner finds.
-/

import CachedCalls.Proofs.Lexical.Closing
import CachedCalls.Proofs.Text.ByteAt
import Mathlib.Order.Bounds.Basic

namespace CachedCalls.Lexical

open Text

namespace Context

/-! ## Characters of more than one byte -/

theorem isQuiet_of_utf8Size_ne_one {c : Char} (hc : c.utf8Size ≠ 1) : isQuiet c = true :=
  isQuiet_of_any_eq_false (p := fun d => d.utf8Size != 1) (by decide) (by simpa using hc)

theorem isAlphanum_of_utf8Size_ne_one {c : Char} (hc : c.utf8Size ≠ 1) : c.isAlphanum = false := by
  rw [Ne, utf8Size_eq_one_iff_toNat] at hc
  rw [← Bool.not_eq_true, isAlphanum_iff_toNat]
  omega

section Long

variable {c d : Char} (hc : c.utf8Size ≠ 1)
include hc

/-- Characters of more than one byte all lead to the same context. -/
theorem step_eq_of_utf8Size_ne_one (hd : d.utf8Size ≠ 1) (context : Context) :
    context.step c = context.step d := by
  rw [step_of_isQuiet (isQuiet_of_utf8Size_ne_one hc), step_of_isQuiet (isQuiet_of_utf8Size_ne_one hd),
    isAlphanum_of_utf8Size_ne_one hc, isAlphanum_of_utf8Size_ne_one hd]

/-- Behind one of them, others change nothing. -/
theorem step_step_of_utf8Size_ne_one (hd : d.utf8Size ≠ 1) (context : Context) :
    (context.step c).step d = context.step c := by
  rw [step_of_isQuiet (isQuiet_of_utf8Size_ne_one hd), step_of_isQuiet (isQuiet_of_utf8Size_ne_one hc),
    isAlphanum_of_utf8Size_ne_one hc, isAlphanum_of_utf8Size_ne_one hd]
  cases context <;> rfl

theorem openStep?_of_utf8Size_ne_one (context : Context) (depth : Nat) :
    context.openStep? depth c = some depth :=
  openStep?_of_ne (ne_of_utf8Size_ne_one hc (by decide)) (ne_of_utf8Size_ne_one hc (by decide))

end Long

/-- Code never breaks off. -/
theorem isCode_of_step_eq_broken {context : Context} {c : Char} (h : context.step c = broken)
    (hcontext : context ≠ broken) : context.isCode = false := by
  rw [← Bool.not_eq_true]
  intro hcode
  rcases eq_code_or_eq_slash_of_isCode hcode with ⟨joined, rfl⟩ | rfl
  · simp only [step, ofCode] at h
    split_ifs at h
  · simp only [step, ofCode] at h
    split_ifs at h

/-- One character closes one parenthesis at most. -/
theorem eq_one_of_openStep?_zero {context : Context} {depth : Nat} {c : Char}
    (h : context.openStep? depth c = some 0) (hdepth : depth ≠ 0) : depth = 1 := by
  unfold openStep? at h
  split_ifs at h with hopen hclose
  · cases h
  · cases depth with
    | zero => cases h
    | succ outer => rw [Option.some.inj h]
  · exact absurd (Option.some.inj h) hdepth

end Context

/-! ## The machine on bytes -/

/-- What has been read of a text: the context reached, and how many parentheses stand open
there. -/
structure Reading where
  context : Context
  depth : Nat
deriving DecidableEq, Repr

namespace Reading

/-- Nothing has been read yet. -/
def start : Reading :=
  ⟨.code false, 0⟩

/-- Read one more character. This fails at the end of a line inside a literal, and at a parenthesis
that closes none. -/
def read? (reading : Reading) (c : Char) : Option Reading :=
  let context := reading.context.step c
  if context = .broken then none
  else (reading.context.openStep? reading.depth c).map (⟨context, ·⟩)

/-- Read one more byte. -/
def next? (reading : Reading) (b : UInt8) : Option Reading :=
  reading.read? (Char.ofUInt8 b)

/-- Read several more bytes. -/
def after? (reading : Reading) (bytes : List UInt8) : Option Reading :=
  bytes.foldlM next? reading

/-- Some parentheses stand open in front of the byte at an offset, and none behind it. -/
def ClosesAt (reading : Reading) (bytes : List UInt8) (offset : Nat) : Prop :=
  ∃ before behind, reading.after? (bytes.take offset) = some before ∧
    reading.after? (bytes.take (offset + 1)) = some behind ∧ before.depth ≠ 0 ∧ behind.depth = 0

/-- The first offset at which no parenthesis is left open any more. -/
def firstClosing? (reading : Reading) : List UInt8 → Option Nat
  | [] => none
  | b :: bytes => (reading.next? b).bind fun behind =>
    if reading.depth ≠ 0 ∧ behind.depth = 0 then some 0
    else (behind.firstClosing? bytes).map (· + 1)

/-! ## The first closing parenthesis -/

@[simp]
theorem after?_nil (reading : Reading) : reading.after? [] = some reading := rfl

theorem after?_cons (reading : Reading) (b : UInt8) (bytes : List UInt8) :
    reading.after? (b :: bytes) = (reading.next? b).bind (·.after? bytes) := rfl

theorem not_closesAt_nil (reading : Reading) (offset : Nat) : ¬ reading.ClosesAt [] offset := by
  rintro ⟨before, behind, hbefore, hbehind, hopen, hclosed⟩
  rw [List.take_nil] at hbefore hbehind
  obtain rfl := Option.some.inj (hbefore.symm.trans hbehind)
  exact hopen hclosed

theorem closesAt_cons_zero {reading behind : Reading} {b : UInt8} {bytes : List UInt8}
    (h : reading.next? b = some behind) :
    reading.ClosesAt (b :: bytes) 0 ↔ reading.depth ≠ 0 ∧ behind.depth = 0 := by
  have hone : reading.after? ((b :: bytes).take 1) = some behind := by
    rw [List.take_succ_cons, List.take_zero, after?_cons, h]
    rfl
  rw [ClosesAt, hone, List.take_zero, after?_nil]
  simp

theorem closesAt_cons_succ {reading behind : Reading} {b : UInt8} {bytes : List UInt8}
    (h : reading.next? b = some behind) (offset : Nat) :
    reading.ClosesAt (b :: bytes) (offset + 1) ↔ behind.ClosesAt bytes offset := by
  simp only [ClosesAt, List.take_succ_cons, after?_cons, h, Option.bind_some]

theorem not_closesAt_cons {reading : Reading} {b : UInt8} {bytes : List UInt8}
    (h : reading.next? b = none) (offset : Nat) : ¬ reading.ClosesAt (b :: bytes) offset := by
  rintro ⟨before, behind, -, hbehind, -⟩
  rw [List.take_succ_cons, after?_cons, h] at hbehind
  cases hbehind

/-- The computed offset is the least one at which the machine closes the last open parenthesis. -/
theorem firstClosing?_eq_some_iff {reading : Reading} {bytes : List UInt8} {offset : Nat} :
    reading.firstClosing? bytes = some offset ↔ IsLeast {i | reading.ClosesAt bytes i} offset := by
  induction bytes generalizing reading offset with
  | nil =>
      refine iff_of_false nofun fun hleast => ?_
      exact not_closesAt_nil reading offset hleast.1
  | cons b bytes ih =>
      cases hnext : reading.next? b with
      | none =>
          rw [firstClosing?, hnext]
          refine iff_of_false nofun fun hleast => ?_
          exact not_closesAt_cons hnext offset hleast.1
      | some behind =>
          rw [firstClosing?, hnext, Option.bind_some]
          split_ifs with hclosed
          · rw [Option.some_inj]
            have hleast : IsLeast {i | reading.ClosesAt (b :: bytes) i} 0 :=
              ⟨(closesAt_cons_zero hnext).mpr hclosed, fun i _ => Nat.zero_le i⟩
            constructor
            · rintro rfl
              exact hleast
            · exact hleast.unique
          · rw [← closesAt_cons_zero hnext] at hclosed
            rw [Option.map_eq_some_iff]
            constructor
            · rintro ⟨inner, hinner, rfl⟩
              obtain ⟨hcloses, hbelow⟩ := ih.mp hinner
              refine ⟨(closesAt_cons_succ hnext inner).mpr hcloses, fun i hi => ?_⟩
              cases i with
              | zero => exact absurd hi hclosed
              | succ i => exact Nat.succ_le_succ (hbelow ((closesAt_cons_succ hnext i).mp hi))
            · rintro ⟨hcloses, hbelow⟩
              cases offset with
              | zero => exact absurd hcloses hclosed
              | succ inner =>
                  refine ⟨inner, ih.mpr ⟨(closesAt_cons_succ hnext inner).mp hcloses, ?_⟩, rfl⟩
                  intro i hi
                  exact Nat.le_of_succ_le_succ (hbelow ((closesAt_cons_succ hnext i).mpr hi))

/-- Bytes behind the closing parenthesis do not matter. -/
theorem firstClosing?_append {reading : Reading} {bytes : List UInt8} {offset : Nat}
    (h : reading.firstClosing? bytes = some offset) (more : List UInt8) :
    reading.firstClosing? (bytes ++ more) = some offset := by
  induction bytes generalizing reading offset with
  | nil => cases h
  | cons b bytes ih =>
      rw [firstClosing?, Option.bind_eq_some_iff] at h
      obtain ⟨behind, hnext, h⟩ := h
      rw [List.cons_append, firstClosing?, hnext, Option.bind_some]
      split_ifs at h ⊢ with hclosed
      · exact h
      · obtain ⟨inner, hinner, rfl⟩ := Option.map_eq_some_iff.mp h
        rw [ih hinner, Option.map_some]

/-! ## Characters and their bytes -/

/-- The first byte of a character leads to where the character leads. -/
theorem read?_lead (reading : Reading) (c : Char) : reading.read? (lead c) = reading.read? c := by
  by_cases hc : c.utf8Size = 1
  · rw [lead_of_utf8Size_eq_one hc]
  · have hlead := utf8Size_lead_ne_one hc
    rw [read?, read?, Context.step_eq_of_utf8Size_ne_one hlead hc,
      Context.openStep?_of_utf8Size_ne_one hlead, Context.openStep?_of_utf8Size_ne_one hc]

/-- A character of more than one byte opens and closes nothing, and behind it another one changes
nothing. -/
theorem read?_of_read?_eq_some {reading behind : Reading} {c d : Char} (hc : c.utf8Size ≠ 1)
    (hd : d.utf8Size ≠ 1) (h : reading.read? c = some behind) :
    behind.depth = reading.depth ∧ behind.read? d = some behind := by
  simp only [read?, Context.openStep?_of_utf8Size_ne_one hc] at h
  split_ifs at h with hbroken
  obtain rfl := Option.some.inj h
  refine ⟨rfl, ?_⟩
  rw [read?, Context.step_step_of_utf8Size_ne_one hc hd, if_neg hbroken,
    Context.openStep?_of_utf8Size_ne_one hd]
  rfl

/-- Bytes that change nothing are passed. -/
theorem firstClosing?_passed {reading : Reading} {passed : List UInt8}
    (h : ∀ b ∈ passed, reading.next? b = some reading) (bytes : List UInt8) :
    reading.firstClosing? (passed ++ bytes) =
      (reading.firstClosing? bytes).map (· + passed.length) := by
  induction passed with
  | nil => simp
  | cons b passed ih =>
      rw [List.forall_mem_cons] at h
      rw [List.cons_append, firstClosing?, h.1, Option.bind_some, if_neg fun hclosed => hclosed.1 hclosed.2,
        ih h.2, Option.map_map]
      rfl

/-- The bytes of a whole character are read like the character. -/
theorem firstClosing?_char (reading : Reading) (c : Char) (bytes : List UInt8) :
    reading.firstClosing? (String.utf8EncodeChar c ++ bytes) =
      (reading.read? c).bind fun behind =>
        if reading.depth ≠ 0 ∧ behind.depth = 0 then some 0
        else (behind.firstClosing? bytes).map (· + c.utf8Size) := by
  obtain ⟨b, tail, hbytes, hlead, hsize, htail⟩ := exists_utf8EncodeChar_eq_cons c
  rw [hbytes, List.cons_append, firstClosing?, next?, hlead, read?_lead]
  refine Option.bind_congr fun behind hbehind => ?_
  congr 1
  have hpassed : ∀ t ∈ tail, behind.next? t = some behind := by
    intro t ht
    have hc : c.utf8Size ≠ 1 := by
      have hpos := List.length_pos_of_mem ht
      omega
    exact (read?_of_read?_eq_some hc (htail t ht) hbehind).2
  rw [firstClosing?_passed hpassed, Option.map_map, ← hsize]
  rfl

/-- On the bytes of a text, the machine closes the last parenthesis where it does so on the
characters. -/
theorem firstClosing?_utf8 {context : Context} (hcontext : context ≠ .broken) (depth : Nat)
    (cs : List Char) :
    firstClosing? ⟨context, depth⟩ (utf8 cs) =
      (context.behindClosing? depth cs).map fun rest => byteLength cs - byteLength rest - 1 := by
  induction cs generalizing context depth with
  | nil => rfl
  | cons c cs ih =>
      rw [utf8_cons, firstClosing?_char, read?]
      dsimp only
      split_ifs with hbroken
      · have hcode := Context.isCode_of_step_eq_broken hbroken hcontext
        rw [Context.behindClosing?_cons_of_not_isCode hcode, hbroken, Context.behindClosing?_broken]
        rfl
      · rw [Context.behindClosing?, Option.bind_map, Option.map_bind]
        refine Option.bind_congr fun inner hinner => ?_
        dsimp only [Function.comp_apply]
        by_cases hclosed : depth ≠ 0 ∧ inner = 0
        · obtain ⟨hdepth, rfl⟩ := hclosed
          obtain rfl := Context.eq_one_of_openStep?_zero hinner hdepth
          obtain ⟨-, rfl⟩ := Context.eq_of_openStep?_one hinner
          have hparen : ')'.utf8Size = 1 := rfl
          rw [if_pos ⟨hdepth, rfl⟩, if_pos ⟨rfl, rfl⟩, Option.map_some, byteLength, hparen]
          congr 1
          omega
        · have hgo : ¬ (depth = 1 ∧ inner = 0) := by
            rintro ⟨rfl, rfl⟩
            exact hclosed ⟨Nat.one_ne_zero, rfl⟩
          rw [if_neg hclosed, if_neg hgo, ih hbroken, Option.map_map]
          refine Option.map_congr fun rest hrest => ?_
          obtain ⟨taken, rfl, -⟩ := Context.exists_of_behindClosing? hrest
          have hparen : ')'.utf8Size = 1 := rfl
          simp only [Function.comp_apply, byteLength, byteLength_append, hparen]
          omega

end Reading

/-- The scanner finds the first byte at which the machine has no parenthesis left open. -/
theorem closingParen?_eq_firstClosing? (text : String) :
    closingParen? text = Reading.start.firstClosing? (utf8 text.toList) := by
  have hcontext : Context.code false ≠ .broken := by decide
  rw [closingParen?, Context.afterClosing_eq_behindClosing?, Reading.start,
    Reading.firstClosing?_utf8 hcontext]
  rfl

end CachedCalls.Lexical
