/-
# Strings and numbers read back

A token that was written is read as what it was written from, whatever text
follows. For a string nothing is required of that text, because the closing
quote ends it. A number has no end of its own: the text behind it must not
continue it, and behind a value of a laid out document it does not, since only a
comma, a line break or the end of the text can stand there.

Only natural numbers below the limit of 64 bits are considered. They are written
without sign, fraction and exponent, and reading keeps them exact.
-/

import CachedCalls.Json.Printer
import CachedCalls.Json.Record

namespace CachedCalls

/-! ## Readers -/

namespace Reader

/-- A step that succeeds hands its result and the rest of the text to the next one. -/
theorem bind_of_ok {α β : Type} {x : Reader α} {f : α → Reader β} {cs rest : List Char} {a : α}
    (h : x cs = .ok (a, rest)) : (x >>= f) cs = f a rest := by
  simp [bind, StateT.bind, h, Except.bind]

/-- Nothing but characters that may stand between tokens. -/
def AllGap (cs : List Char) : Prop :=
  ∀ c ∈ cs, isGap c = true

/-- Looking ahead passes the gap in front of a token and leaves the token. -/
theorem peek_of_allGap {gap cs : List Char} (hgap : AllGap gap) {c : Char}
    (hhead : cs.head? = some c) (hc : isGap c = false) : peek (gap ++ cs) = .ok (some c, cs) := by
  have hdrop : cs.dropWhile isGap = cs := by
    cases cs with
    | nil => cases hhead
    | cons d more =>
        cases hhead
        exact List.dropWhile_cons_of_neg (by simp [hc])
  rw [peek, List.dropWhile_append_of_pos hgap, hdrop, hhead]

theorem peek_of_head? {cs : List Char} {c : Char} (hhead : cs.head? = some c)
    (hc : isGap c = false) : peek cs = .ok (some c, cs) :=
  peek_of_allGap (List.forall_mem_nil _) hhead hc

@[simp]
theorem advance_cons (c : Char) (rest : List Char) : advance (c :: rest) = .ok ((), rest) := rfl

/-- What stands behind a value in a laid out text: nothing, a comma or a line break. -/
def EndsValue (rest : List Char) : Prop :=
  ∀ c, rest.head? = some c → c = ',' ∨ c = '\n'

/-- A reader takes the text `cs` off the front of a text and gives `a`, also behind a gap and
whatever comes behind `cs`, as long as it ends a value. -/
def Reads {α : Type} (reader : Reader α) (cs : List Char) (a : α) : Prop :=
  ∀ gap rest, AllGap gap → EndsValue rest → reader (gap ++ (cs ++ rest)) = .ok (a, rest)

theorem Reads.apply {α : Type} {reader : Reader α} {cs rest : List Char} {a : α}
    (h : Reads reader cs a) (hrest : EndsValue rest) : reader (cs ++ rest) = .ok (a, rest) :=
  h [] rest (List.forall_mem_nil _) hrest

theorem head?_append_of_head? {cs rest : List Char} {c : Char} (h : cs.head? = some c) :
    (cs ++ rest).head? = some c := by
  rw [List.head?_append, h, Option.some_or]

/-- A reader that looks at the next character first reads behind any gap. -/
theorem reads_of_peek {α : Type} {f : Option Char → Reader α} {c : Char} {cs : List Char} {a : α}
    (hhead : cs.head? = some c) (hc : isGap c = false)
    (h : ∀ rest, EndsValue rest → f (some c) (cs ++ rest) = .ok (a, rest)) :
    Reads (peek >>= f) cs a := by
  intro gap rest hgap hrest
  rw [bind_of_ok (peek_of_allGap hgap (head?_append_of_head? hhead) hc)]
  exact h rest hrest

/-- What is done with the result of a reader does not change what it reads. -/
theorem Reads.map {α β : Type} {reader : Reader α} {cs : List Char} {a : α}
    (h : Reads reader cs a) (f : α → β) : Reads (do return f (← reader)) cs (f a) := by
  intro gap rest hgap hrest
  exact bind_of_ok (h gap rest hgap hrest)

end Reader

/-! ## Strings -/

namespace Json

/-- A character is written as itself, by a letter behind a backslash, or by its number. -/
theorem escapeChar_cases (c : Char) :
    (c ≠ '"' ∧ c ≠ '\\' ∧ ¬ c.toNat < 0x20 ∧ escapeChar c = [c]) ∨
      (∃ e, shortEscape? e = some c ∧ escapeChar c = ['\\', e]) ∨
      (c.toNat < 0x20 ∧ escapeChar c =
        ['\\', 'u', '0', '0', Text.hexChar (c.toNat / 16), Text.hexChar (c.toNat % 16)]) := by
  unfold escapeChar
  split
  · next h => exact Or.inr (Or.inl ⟨'"', by rw [h]; rfl, rfl⟩)
  split
  · next h => exact Or.inr (Or.inl ⟨'\\', by rw [h]; rfl, rfl⟩)
  split
  · next h => exact Or.inr (Or.inl ⟨'b', by rw [h]; rfl, rfl⟩)
  split
  · next h => exact Or.inr (Or.inl ⟨'f', by rw [h]; rfl, rfl⟩)
  split
  · next h => exact Or.inr (Or.inl ⟨'n', by rw [h]; rfl, rfl⟩)
  split
  · next h => exact Or.inr (Or.inl ⟨'r', by rw [h]; rfl, rfl⟩)
  split
  · next h => exact Or.inr (Or.inl ⟨'t', by rw [h]; rfl, rfl⟩)
  split
  · next h => exact Or.inr (Or.inr ⟨h, rfl⟩)
  · next hquote hback _ _ _ _ _ h => exact Or.inl ⟨hquote, hback, h, rfl⟩

theorem stringBody_of_plain {c : Char} (hquote : c ≠ '"') (hback : c ≠ '\\')
    (hcontrol : ¬ c.toNat < 0x20) (done rest : List Char) :
    stringBody done (c :: rest) = stringBody (c :: done) rest := by
  rw [stringBody.eq_def]
  simp [hquote, hback, hcontrol]

theorem stringBody_of_shortEscape {e c : Char} (h : shortEscape? e = some c)
    (done rest : List Char) :
    stringBody done ('\\' :: e :: rest) = stringBody (c :: done) rest := by
  have hunit : e ≠ 'u' := by
    rintro rfl
    cases h
  rw [stringBody.eq_def]
  simp [h, hunit]

/-- Units below the surrogates stand for a character each. -/
theorem stringBody_of_unit {a b x y : Char} {unit : Nat} (h : hexUnit? a b x y = some unit)
    (hunit : unit < 0xD800) (done rest : List Char) :
    stringBody done ('\\' :: 'u' :: a :: b :: x :: y :: rest) =
      stringBody (Char.ofNat unit :: done) rest := by
  have htrail : isTrail unit = false := by
    simp only [isTrail, Bool.and_eq_false_iff, decide_eq_false_iff_not]
    omega
  have hlead : isLead unit = false := by
    simp only [isLead, Bool.and_eq_false_iff, decide_eq_false_iff_not]
    omega
  rw [stringBody.eq_def]
  simp [h, htrail, hlead]

theorem hexUnit?_of_control {n : Nat} (h : n < 0x20) :
    hexUnit? '0' '0' (Text.hexChar (n / 16)) (Text.hexChar (n % 16)) = some n := by
  have hzero : Text.hexDigit? '0' = some 0 := rfl
  have hhigh : Text.hexDigit? (Text.hexChar (n / 16)) = some (n / 16) :=
    Text.hexDigit?_hexChar (by omega)
  have hlow : Text.hexDigit? (Text.hexChar (n % 16)) = some (n % 16) :=
    Text.hexDigit?_hexChar (by omega)
  simp only [hexUnit?, hzero, hhigh, hlow, bind, Option.bind_some, pure, Option.some.injEq]
  omega

/-- One written character is read as that character. -/
theorem stringBody_escapeChar (c : Char) (done rest : List Char) :
    stringBody done (escapeChar c ++ rest) = stringBody (c :: done) rest := by
  rcases escapeChar_cases c with ⟨hquote, hback, hcontrol, heq⟩ | ⟨e, he, heq⟩ | ⟨hcontrol, heq⟩
  · rw [heq]
    exact stringBody_of_plain hquote hback hcontrol done rest
  · rw [heq]
    exact stringBody_of_shortEscape he done rest
  · rw [heq]
    have hread := stringBody_of_unit (hexUnit?_of_control hcontrol) (by omega) done rest
    rw [Char.ofNat_toNat] at hread
    exact hread

theorem stringBody_flatMap_escapeChar (text done rest : List Char) :
    stringBody done (text.flatMap escapeChar ++ '"' :: rest) =
      .ok (String.ofList (done.reverse ++ text), rest) := by
  induction text generalizing done with
  | nil =>
      rw [stringBody.eq_def]
      simp
  | cons c text ih =>
      rw [List.flatMap_cons, List.append_assoc, stringBody_escapeChar, ih]
      simp

end Json

namespace Reader

open Json

theorem quoted_renderString (text : String) (rest : List Char) :
    quoted (renderString text ++ rest) = .ok (text, rest) := by
  have hbody := stringBody_flatMap_escapeChar text.toList [] rest
  rw [List.reverse_nil, List.nil_append, String.ofList_toList] at hbody
  simp only [renderString, List.append_assoc, List.cons_append, List.nil_append]
  rw [quoted, bind_of_ok (advance_cons _ _), hbody]

theorem reads_text (text : String) : Reads Reader.text (renderString text) text := by
  unfold Reader.text
  apply reads_of_peek rfl (by decide)
  intro rest _
  exact quoted_renderString text rest

end Reader

/-! ## Numbers -/

namespace Json

/-- Digits only make a number larger. -/
theorem le_ofDigitChars (digits : List Char) (n : Nat) : n ≤ Nat.ofDigitChars 10 digits n := by
  induction digits generalizing n with
  | nil => simp
  | cons d digits ih =>
      rw [Nat.ofDigitChars_cons]
      exact Nat.le_trans (by omega) (ih _)

/-- A number that fits is gathered to its last digit. -/
theorem gather_eq_of_lt {digits : List Char} {n : Nat}
    (h : Nat.ofDigitChars 10 digits n < UInt64.size) :
    gather n digits = (Nat.ofDigitChars 10 digits n, digits.length) := by
  induction digits generalizing n with
  | nil => simp [gather]
  | cons d digits ih =>
      rw [Nat.ofDigitChars_cons, Nat.mul_comm] at h ⊢
      have hnext : n * 10 + digitValue d < UInt64.size :=
        Nat.lt_of_le_of_lt (le_ofDigitChars digits _) h
      rw [gather]
      dsimp only
      rw [if_pos hnext, digitValue, ih h]
      rfl

/-- A natural number is written by its digits alone, at every level. -/
theorem render_ofNat (level n : Nat) : render level (.ofNat n) = Nat.toDigits 10 n := by
  show renderNumber (.whole n) = Nat.toDigits 10 n
  simp [renderNumber]

theorem number?_toDigits {n : Nat} (h : n < UInt64.size) :
    Numeral.number? ⟨false, Nat.toDigits 10 n, [], none⟩ = some (.whole n) := by
  have hvalue : Nat.ofDigitChars 10 (Nat.toDigits 10 n) 0 = n := Nat.ofDigitChars_ten_toDigits
  have hgather : gather 0 (Nat.toDigits 10 n) = (n, (Nat.toDigits 10 n).length) := by
    rw [gather_eq_of_lt (by rwa [hvalue]), hvalue]
  simp [Numeral.number?, hgather]

theorem isDigit_of_mem_toDigits {n : Nat} : ∀ c ∈ Nat.toDigits 10 n, c.isDigit = true :=
  fun _ => Nat.isDigit_of_mem_toDigits (by decide) (by decide)

theorem exists_head?_toDigits (n : Nat) :
    ∃ d, (Nat.toDigits 10 n).head? = some d ∧ d.isDigit = true := by
  refine ⟨_, List.head?_eq_some_head Nat.toDigits_ne_nil, ?_⟩
  exact isDigit_of_mem_toDigits _ (List.head_mem _)

theorem ne_of_isDigit {c d : Char} (hc : c.isDigit = true) (hd : d.isDigit = false) : c ≠ d := by
  rintro rfl
  rw [hc] at hd
  cases hd

/-- Only zero is written with a zero in front. -/
theorem eq_zero_of_head?_toDigits {n : Nat} (h : (Nat.toDigits 10 n).head? = some '0') : n = 0 := by
  induction n using Nat.strongRecOn with
  | ind n ih =>
      by_cases hsmall : n < 10
      · rw [Nat.toDigits_of_lt_base hsmall] at h
        simpa using h
      · have hsplit := Nat.toDigits_of_base_le (b := 10) (by decide) (Nat.le_of_not_lt hsmall)
        obtain ⟨d, hfront, -⟩ := exists_head?_toDigits (n / 10)
        rw [hsplit, List.head?_append, hfront, Option.some_or] at h
        have hzero := ih (n / 10) (by omega) (by rw [hfront, h])
        omega

end Json

theorem Decoder.natural_ofNat {bound n : Nat} (h : n < bound) (expected : String) :
    Decoder.natural bound expected (.ofNat n) = .ok n := by
  simp [Decoder.natural, Json.ofNat, h]

namespace Reader

open Json

theorem EndsValue.eq_nil_or_cons {rest : List Char} (h : EndsValue rest) :
    rest = [] ∨ ∃ c later, rest = c :: later ∧ (c = ',' ∨ c = '\n') := by
  cases rest with
  | nil => exact Or.inl rfl
  | cons c later => exact Or.inr ⟨c, later, rfl, h c rfl⟩

theorem oneOf?_of_endsValue {choices rest : List Char} (h : EndsValue rest)
    (hcomma : ',' ∉ choices) (hbreak : '\n' ∉ choices) :
    oneOf? choices rest = .ok (none, rest) := by
  rcases h.eq_nil_or_cons with rfl | ⟨c, later, rfl, rfl | rfl⟩
  · rfl
  · simp [oneOf?, hcomma]
  · simp [oneOf?, hbreak]

theorem digits_of_endsValue {found rest : List Char} (hfound : ∀ c ∈ found, c.isDigit = true)
    (hrest : EndsValue rest) : digits (found ++ rest) = .ok (found, rest) := by
  have htake : rest.takeWhile Char.isDigit = [] := by
    rcases hrest.eq_nil_or_cons with rfl | ⟨c, later, rfl, rfl | rfl⟩ <;> rfl
  have hdrop : rest.dropWhile Char.isDigit = rest := by
    rcases hrest.eq_nil_or_cons with rfl | ⟨c, later, rfl, rfl | rfl⟩ <;> rfl
  rw [digits, List.takeWhile_append_of_pos hfound, List.dropWhile_append_of_pos hfound, htake,
    hdrop, List.append_nil]

theorem someDigits_of_endsValue {found rest : List Char} (hne : found ≠ [])
    (hfound : ∀ c ∈ found, c.isDigit = true) (hrest : EndsValue rest) :
    someDigits (found ++ rest) = .ok (found, rest) := by
  rw [someDigits, bind_of_ok (digits_of_endsValue hfound hrest)]
  cases found with
  | nil => exact absurd rfl hne
  | cons d found => rfl

theorem isGap_of_isDigit {c : Char} (h : c.isDigit = true) : isGap c = false := by
  rw [← Bool.not_eq_true, isGap]
  simp only [Bool.or_eq_true, beq_iff_eq]
  rintro (((rfl | rfl) | rfl) | rfl) <;> cases h

theorem wholeDigits_toDigits (n : Nat) {rest : List Char} (hrest : EndsValue rest) :
    wholeDigits (Nat.toDigits 10 n ++ rest) = .ok (Nat.toDigits 10 n, rest) := by
  have hread := someDigits_of_endsValue Nat.toDigits_ne_nil
    (isDigit_of_mem_toDigits (n := n)) hrest
  by_cases hzero : n = 0
  · subst hzero
    rw [Nat.toDigits_zero] at hread ⊢
    rcases hrest.eq_nil_or_cons with rfl | ⟨c, later, rfl, rfl | rfl⟩
    · exact hread
    · rfl
    · rfl
  · -- The first digit is not zero, so the digits are taken as they are.
    obtain ⟨d, hhead, -⟩ := exists_head?_toDigits n
    rw [wholeDigits.eq_def]
    split
    · next heq =>
      have hfirst : (Nat.toDigits 10 n ++ rest).head? = some d := head?_append_of_head? hhead
      rw [heq, List.head?_cons] at hfirst
      exact absurd (eq_zero_of_head?_toDigits (hhead.trans hfirst.symm)) hzero
    · exact hread

theorem numeral_toDigits (n : Nat) {rest : List Char} (hrest : EndsValue rest) :
    numeral (Nat.toDigits 10 n ++ rest) = .ok (⟨false, Nat.toDigits 10 n, [], none⟩, rest) := by
  have hsign : oneOf? ['-'] (Nat.toDigits 10 n ++ rest) =
      .ok (none, Nat.toDigits 10 n ++ rest) := by
    obtain ⟨d, hhead, hdigit⟩ := exists_head?_toDigits n
    have hd : d ≠ '-' := ne_of_isDigit hdigit (by decide)
    obtain ⟨digits, hdigits⟩ := List.head?_eq_some_iff.mp hhead
    simp [hdigits, oneOf?, hd]
  have hfraction : fractionDigits rest = .ok ([], rest) := by
    rw [fractionDigits, bind_of_ok (oneOf?_of_endsValue hrest (by decide) (by decide))]
    rfl
  have hexponent : exponentPart rest = .ok (none, rest) := by
    rw [exponentPart, bind_of_ok (oneOf?_of_endsValue hrest (by decide) (by decide))]
    rfl
  rw [numeral, bind_of_ok hsign, bind_of_ok (wholeDigits_toDigits n hrest), bind_of_ok hfraction,
    bind_of_ok hexponent]
  rfl

theorem number_toDigits {n : Nat} (h : n < UInt64.size) {rest : List Char}
    (hrest : EndsValue rest) :
    number (Nat.toDigits 10 n ++ rest) = .ok (.whole n, rest) := by
  simp [number, numeral_toDigits n hrest, number?_toDigits h, bind, Except.bind, pure, Except.pure]

/-- A natural number below the bound of its reader is read back. -/
theorem reads_natural {bound n : Nat} (hbound : n < bound) (h : n < UInt64.size)
    (expected : String) : Reads (natural bound expected) (Nat.toDigits 10 n) n := by
  obtain ⟨d, hhead, hdigit⟩ := exists_head?_toDigits n
  have hdecode : Decoder.natural bound expected (.number (.whole n)) = .ok n :=
    Decoder.natural_ofNat hbound expected
  unfold natural
  apply reads_of_peek hhead (isGap_of_isDigit hdigit)
  intro rest hrest
  rw [if_pos (by simp [hdigit]), bind_of_ok (number_toDigits h hrest), hdecode]
  rfl

end Reader

end CachedCalls
