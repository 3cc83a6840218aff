/-
# The scanner as a loop over offsets

The search for a closing parenthesis can be run on the bytes of a text, with nothing
but an offset and the number of open parentheses as its state. Each round of the loop
looks at one byte and moves the offset on: by one, or over a literal or a comment. An
escaped character is passed by its first byte, so the offset can come to lie inside a
character, and a delimited comment is searched in the text cut at an offset, which
fails inside a character.

The loop nevertheless comes to its end on every text, no cut fails, and it finds what
the scanner on characters finds.
-/

import CachedCalls.Proofs.Lexical.Bytes

namespace CachedCalls.Lexical

open Text

/-! ## Jumps -/

/-- Offset of the quote that closes a literal, looked for from an offset inside it. A backslash
hides the byte behind it. -/
def literalClose? (text : String) (quote : Char) (offset : Nat) : Option Nat :=
  match h : byteAt? text offset with
  | none => none
  | some b =>
    have := lt_size_of_byteAt? h
    if b = '\\' then literalClose? text quote (offset + 2)
    else if b = quote then some offset
    else if b = '\n' then none
    else literalClose? text quote (offset + 1)
termination_by size text - offset

/-- Offset of the line break that ends the line of an offset, or of the end of the text. -/
def lineClose (text : String) (offset : Nat) : Nat :=
  offset + ((utf8 text.toList).drop offset).findIdx fun b => Char.ofUInt8 b = '\n'

/-- Number of bytes in front of the first star that a slash follows. -/
def blockClose? : List Char → Option Nat
  | [] => none
  | c :: cs =>
    if c = '*' ∧ cs.head? = some '/' then some 0 else (blockClose? cs).map (c.utf8Size + ·)

/-- Whether an ASCII letter or digit stands directly in front of an offset. -/
def isJoinedAt (text : String) : Nat → Bool
  | 0 => false
  | before + 1 => (byteAt? text before).any Char.isAlphanum

/-! ## The loop -/

/-- What comes of one round of the loop. -/
inductive Round where
  /-- The search is over. -/
  | ended (answer : Option Nat)
  /-- The text had to be cut at an offset inside a character. -/
  | brokenCut (offset : Nat)
  /-- The search goes on. -/
  | goesOn (depth offset : Nat)
deriving DecidableEq, Repr

/-- One round of the loop, inside `depth` open parentheses. -/
def round (text : String) (depth offset : Nat) : Round :=
  match byteAt? text offset with
  | none => .ended none
  | some b =>
    if b = '(' then .goesOn (depth + 1) (offset + 1)
    else if b = ')' then
      match depth with
      | 0 => .ended none
      | 1 => .ended (some offset)
      | outer + 2 => .goesOn (outer + 1) (offset + 1)
    else if b = '"' ∨ (b = '\'' ∧ isJoinedAt text offset = false) then
      match literalClose? text b (offset + 1) with
      | none => .ended none
      | some close => .goesOn depth (close + 1)
    else if b = '/' ∧ byteAt? text (offset + 1) = some '/' then
      .goesOn depth (lineClose text offset + 1)
    else if b = '/' ∧ byteAt? text (offset + 1) = some '*' then
      match cut? (offset + 2) text.toList with
      | none => .brokenCut (offset + 2)
      | some (_, rest) =>
        match blockClose? rest with
        | none => .ended none
        | some before => .goesOn depth (offset + 2 + before + 1 + 1)
    else .goesOn depth (offset + 1)

/-- The loop comes to its end with an answer, after finitely many rounds and with no cut inside a
character. -/
inductive EndsWith (text : String) (answer : Option Nat) : Nat → Nat → Prop where
  | now {depth offset : Nat} (h : round text depth offset = .ended answer) :
      EndsWith text answer depth offset
  | later {depth offset inner next : Nat} (h : round text depth offset = .goesOn inner next)
      (hnext : EndsWith text answer inner next) : EndsWith text answer depth offset

/-- There is at most one answer, since each round leaves no choice. -/
theorem EndsWith.unique {text : String} {answer other : Option Nat} {depth offset : Nat}
    (h : EndsWith text answer depth offset) (hother : EndsWith text other depth offset) :
    answer = other := by
  induction h with
  | now hround =>
      cases hother with
      | now hround' => exact Round.ended.inj (hround.symm.trans hround')
      | later hround' _ => exact nomatch hround.symm.trans hround'
  | later hround _ ih =>
      cases hother with
      | now hround' => exact nomatch hround.symm.trans hround'
      | later hround' hnext' =>
          obtain ⟨rfl, rfl⟩ := Round.goesOn.inj (hround.symm.trans hround')
          exact ih hnext'

/-! ## Where the jumps lead -/

section Jumps

variable {text : String} {offset : Nat} {cs : List Char}

theorem literalClose?_of_byteAt? {quote b : Char} (h : byteAt? text offset = some b) :
    literalClose? text quote offset =
      if b = '\\' then literalClose? text quote (offset + 2)
      else if b = quote then some offset
      else if b = '\n' then none
      else literalClose? text quote (offset + 1) := by
  rw [literalClose?]
  split
  · next hnone => cases hnone.symm.trans h
  · next hsome =>
    obtain rfl := Option.some.inj (hsome.symm.trans h)
    rfl

theorem literalClose?_of_none {quote : Char} (h : byteAt? text offset = none) :
    literalClose? text quote offset = none := by
  rw [literalClose?]
  split
  · rfl
  · next hsome => cases hsome.symm.trans h

/-- The search goes on behind a character of which it has seen the first byte. -/
theorem literalClose?_inside {quote c : Char} (hquote : quote.utf8Size = 1)
    (h : GoesOn text offset (c :: cs)) :
    literalClose? text quote (offset + 1) = literalClose? text quote (offset + c.utf8Size) := by
  refine h.of_end
    (P := fun i => literalClose? text quote i = literalClose? text quote (offset + c.utf8Size)) ?_ rfl
  intro i b hb hlong hnext
  rw [literalClose?_of_byteAt? hb, if_neg (ne_of_utf8Size_ne_one hlong (by decide)),
    if_neg (ne_of_utf8Size_ne_one hlong hquote),
    if_neg (ne_of_utf8Size_ne_one hlong (by decide)), hnext]

/-- The closing quote of a literal stands where the scanner on characters finds it. -/
theorem rel_literalClose? {quote : Char} (hquote : quote.utf8Size = 1) (h : GoesOn text offset cs) :
    Option.Rel (fun close rest => GoesOn text close (quote :: rest))
      (literalClose? text quote offset) (skipLiteral quote cs) := by
  fun_induction skipLiteral quote cs generalizing offset with
  | case1 =>
      rw [literalClose?_of_none h.byteAt?_nil]
      exact .none
  | case2 =>
      have hend : byteAt? text (offset + 2) = none := by
        rw [byteAt?_eq_none_iff, h.size_eq]
        exact Nat.le_succ (offset + 1)
      rw [literalClose?_of_byteAt? (h.byteAt?_of_utf8Size_eq_one (by decide)), if_pos rfl,
        literalClose?_of_none hend]
      exact .none
  | case3 d cs ih =>
      -- The escaped character may be a longer one, and the search then goes on inside it.
      rw [literalClose?_of_byteAt? (h.byteAt?_of_utf8Size_eq_one (by decide)), if_pos rfl]
      have hescaped : literalClose? text quote (offset + 1 + 1) =
          literalClose? text quote (offset + 1 + d.utf8Size) := literalClose?_inside hquote h.next
      rw [hescaped]
      exact ih h.next.next
  | case4 cs hback =>
      rw [literalClose?_of_byteAt? (h.byteAt?_of_utf8Size_eq_one hquote), if_neg hback, if_pos rfl]
      exact .some h
  | case5 cs hback hmark =>
      rw [literalClose?_of_byteAt? (h.byteAt?_of_utf8Size_eq_one (by decide)), if_neg hback,
        if_neg hmark, if_pos rfl]
      exact .none
  | case6 c cs hback hmark hbreak ih =>
      have hseen : ∀ d : Char, d.utf8Size = 1 → (lead c = d ↔ c = d) := fun d hd => lead_eq_iff hd
      rw [literalClose?_of_byteAt? h.byteAt?_cons, if_neg (by rwa [hseen _ (by decide)]),
        if_neg (by rwa [hseen _ hquote]), if_neg (by rwa [hseen _ (by decide)]),
        literalClose?_inside hquote h]
      exact ih h.next

/-- A line break is searched for among the bytes, and stands where the characters have it. -/
theorem findIdx_utf8 (cs : List Char) :
    (utf8 cs).findIdx (fun b => Char.ofUInt8 b = '\n') = byteLength (cs.takeWhile (· ≠ '\n')) := by
  induction cs with
  | nil => rfl
  | cons c cs ih =>
      obtain ⟨b, tail, hbytes, hlead, hsize, htail⟩ := exists_utf8EncodeChar_eq_cons c
      rw [utf8_cons]
      by_cases hbreak : c = '\n'
      · subst hbreak
        rfl
      · have hnone : ∀ t ∈ String.utf8EncodeChar c, decide (Char.ofUInt8 t = '\n') = false := by
          intro t ht
          rw [hbytes, List.mem_cons] at ht
          rw [decide_eq_false_iff_not]
          rcases ht with rfl | ht
          · rwa [hlead, lead_eq_iff (by decide)]
          · exact ne_of_utf8Size_ne_one (htail t ht) (by decide)
        rw [List.findIdx_append, List.findIdx_eq_length_of_false hnone, if_neg (Nat.lt_irrefl _), ih,
          String.length_utf8EncodeChar, List.takeWhile_cons_of_pos (by simpa using hbreak),
          byteLength, Nat.add_comm]

theorem lineClose_eq (h : GoesOn text offset cs) :
    lineClose text offset = offset + byteLength (cs.takeWhile (· ≠ '\n')) := by
  rw [lineClose, h.drop_utf8, findIdx_utf8]

/-- A line break stands at the end of a line, unless the line is the last. -/
theorem goesOn_lineClose (h : GoesOn text offset cs) :
    GoesOn text (lineClose text offset) ('\n' :: skipLine cs) ∨
      skipLine cs = [] ∧ size text ≤ lineClose text offset := by
  rw [lineClose_eq h, skipLine]
  have hparts : cs.takeWhile (· ≠ '\n') ++ cs.dropWhile (· ≠ '\n') = cs :=
    List.takeWhile_append_dropWhile
  cases hbreak : cs.dropWhile (· ≠ '\n') with
  | nil =>
      rw [hbreak, List.append_nil] at hparts
      refine Or.inr ⟨rfl, ?_⟩
      rw [h.size_eq, hparts]
  | cons c rest =>
      have hc : c = '\n' := by
        have hhead := List.head?_dropWhile_not (fun d => decide (d ≠ '\n')) cs
        rw [hbreak] at hhead
        simpa using hhead
      rw [hbreak, hc] at hparts
      rw [← hparts] at h
      exact Or.inl h.append

/-- A delimited comment ends where the scanner on characters finds its end. -/
theorem rel_blockClose? (h : GoesOn text offset cs) :
    Option.Rel (fun before rest => GoesOn text (offset + before) ('*' :: '/' :: rest))
      (blockClose? cs) (skipBlock cs) := by
  fun_induction skipBlock cs generalizing offset with
  | case1 => exact .none
  | case2 c cs hclose =>
      obtain ⟨rfl, hhead⟩ := hclose
      obtain ⟨cs, rfl⟩ := List.head?_eq_some_iff.mp hhead
      exact .some h
  | case3 c cs hopen ih =>
      rw [blockClose?, if_neg hopen]
      have hrest := ih h.next
      generalize blockClose? cs = before? at hrest
      generalize skipBlock cs = rest? at hrest
      cases hrest with
      | none => exact .none
      | some hgoes =>
          refine .some ?_
          rwa [Nat.add_assoc offset] at hgoes

/-- In front of the place behind a character stands this character. -/
theorem isJoinedAt_next {c : Char} (h : GoesOn text offset (c :: cs)) :
    isJoinedAt text (offset + c.utf8Size) = c.isAlphanum := by
  by_cases hc : c.utf8Size = 1
  · rw [hc, isJoinedAt, h.byteAt?_of_utf8Size_eq_one hc, Option.any_some]
  · have hpos := c.utf8Size_pos
    obtain ⟨b, hb, hlong⟩ := h.exists_byteAt?_inside (k := c.utf8Size - 1) (by omega) (by omega)
    have hlast : offset + c.utf8Size = offset + (c.utf8Size - 1) + 1 := by omega
    rw [hlast, isJoinedAt, hb, Option.any_some, Context.isAlphanum_of_utf8Size_ne_one hlong,
      Context.isAlphanum_of_utf8Size_ne_one hc]

end Jumps

/-! ## What one round does -/

section Rounds

variable {text : String} {depth offset : Nat} {cs : List Char}

/-- An opening parenthesis is counted. -/
theorem round_of_open (h : GoesOn text offset ('(' :: cs)) :
    round text depth offset = .goesOn (depth + 1) (offset + 1) := by
  simp [round, h.byteAt?_of_utf8Size_eq_one (show '('.utf8Size = 1 from rfl)]

/-- The parenthesis that closes the last open one is the answer, and one that closes none ends the
search. -/
theorem round_of_close (h : GoesOn text offset (')' :: cs)) :
    round text depth offset =
      match depth with
      | 0 => .ended none
      | 1 => .ended (some offset)
      | outer + 2 => .goesOn (outer + 1) (offset + 1) := by
  simp [round, h.byteAt?_of_utf8Size_eq_one (show ')'.utf8Size = 1 from rfl)]

/-- A quote sends the loop behind the literal it opens, if that is closed. -/
theorem round_of_quote {c : Char} (h : GoesOn text offset (c :: cs))
    (hquote : c = '"' ∨ c = '\'' ∧ isJoinedAt text offset = false) :
    round text depth offset =
      match literalClose? text c (offset + 1) with
      | none => .ended none
      | some close => .goesOn depth (close + 1) := by
  have hone : c.utf8Size = 1 := by
    rcases hquote with rfl | ⟨rfl, -⟩ <;> rfl
  have hparen : c ≠ '(' ∧ c ≠ ')' := by
    rcases hquote with rfl | ⟨rfl, -⟩ <;> decide
  simp only [round, h.byteAt?_of_utf8Size_eq_one hone]
  rw [if_neg hparen.1, if_neg hparen.2, if_pos hquote]

/-- Two slashes send the loop to the end of their line. -/
theorem round_of_line (h : GoesOn text offset ('/' :: '/' :: cs)) :
    round text depth offset = .goesOn depth (lineClose text offset + 1) := by
  have hbyte := h.byteAt?_of_utf8Size_eq_one (by decide)
  have hsecond : byteAt? text (offset + 1) = some '/' :=
    h.next.byteAt?_of_utf8Size_eq_one (by decide)
  simp [round, hbyte, hsecond]

/-- A slash and a star send the loop behind the comment they open, if that is closed. The cut that
this takes is made between two characters. -/
theorem round_of_block (h : GoesOn text offset ('/' :: '*' :: cs)) :
    round text depth offset =
      match blockClose? cs with
      | none => .ended none
      | some before => .goesOn depth (offset + 2 + before + 1 + 1) := by
  have hbyte := h.byteAt?_of_utf8Size_eq_one (by decide)
  have hsecond : byteAt? text (offset + 1) = some '*' :=
    h.next.byteAt?_of_utf8Size_eq_one (by decide)
  obtain ⟨taken, hcut⟩ : ∃ taken, cut? (offset + 2) text.toList = some (taken, cs) :=
    h.next.next.exists_cut?
  simp [round, hbyte, hsecond, hcut]

/-- Any other byte is passed. -/
theorem round_of_other {b : Char} (h : byteAt? text offset = some b) (hopen : b ≠ '(')
    (hclose : b ≠ ')') (hquote : ¬ (b = '"' ∨ b = '\'' ∧ isJoinedAt text offset = false))
    (hline : ¬ (b = '/' ∧ byteAt? text (offset + 1) = some '/'))
    (hblock : ¬ (b = '/' ∧ byteAt? text (offset + 1) = some '*')) :
    round text depth offset = .goesOn depth (offset + 1) := by
  simp only [round, h]
  rw [if_neg hopen, if_neg hclose, if_neg hquote, if_neg hline, if_neg hblock]

/-- So is a byte of a longer character. -/
theorem round_of_utf8Size_ne_one {b : Char} (h : byteAt? text offset = some b)
    (hb : b.utf8Size ≠ 1) : round text depth offset = .goesOn depth (offset + 1) := by
  have hslash : b ≠ '/' := ne_of_utf8Size_ne_one hb (by decide)
  apply round_of_other h (ne_of_utf8Size_ne_one hb (by decide))
    (ne_of_utf8Size_ne_one hb (by decide))
  · rintro (hdouble | ⟨hsingle, -⟩)
    · exact ne_of_utf8Size_ne_one hb (by decide) hdouble
    · exact ne_of_utf8Size_ne_one hb (by decide) hsingle
  · exact fun hline => hslash hline.1
  · exact fun hblock => hslash hblock.1

end Rounds

/-! ## The whole loop -/

section Loop

variable {text : String} {depth offset : Nat} {cs rest : List Char} {answer : Option Nat}

/-- Behind the last byte the loop ends without an answer. -/
theorem endsWith_none_of_size_le (h : size text ≤ offset) : EndsWith text none depth offset := by
  apply EndsWith.now
  simp only [round, byteAt?_eq_none_iff.mpr h]

section Quote

variable {c : Char} (h : GoesOn text offset (c :: cs))
  (hquote : c = '"' ∨ c = '\'' ∧ isJoinedAt text offset = false)
include h hquote

/-- Where the literal that a quote opens is closed. -/
theorem rel_literalClose?_of_quote :
    Option.Rel (fun close rest => GoesOn text close (c :: rest))
      (literalClose? text c (offset + 1)) (skipLiteral c cs) := by
  have hone : c.utf8Size = 1 := by
    rcases hquote with rfl | ⟨rfl, -⟩ <;> rfl
  exact rel_literalClose? hone (hone ▸ h.next)

theorem endsWith_none_of_quote (hskip : skipLiteral c cs = none) :
    EndsWith text none depth offset := by
  have hround : round text depth offset = _ := round_of_quote h hquote
  have hclose := rel_literalClose?_of_quote h hquote
  rw [hskip] at hclose
  generalize literalClose? text c (offset + 1) = close? at hround hclose
  cases hclose with
  | none => exact .now hround

theorem endsWith_of_quote (hskip : skipLiteral c cs = some rest)
    (hbehind : ∀ next, GoesOn text next rest → isJoinedAt text next = false →
      EndsWith text answer depth next) : EndsWith text answer depth offset := by
  have hround : round text depth offset = _ := round_of_quote h hquote
  have hclose := rel_literalClose?_of_quote h hquote
  have hplain : c.utf8Size = 1 ∧ c.isAlphanum = false := by
    rcases hquote with rfl | ⟨rfl, -⟩ <;> decide
  rw [hskip] at hclose
  generalize literalClose? text c (offset + 1) = close? at hround hclose
  cases hclose with
  | some hgoes =>
      have hjoined := isJoinedAt_next hgoes
      rw [hplain.1, hplain.2] at hjoined
      exact .later hround (hbehind _ (hplain.1 ▸ hgoes.next) hjoined)

end Quote

/-- If the comment is the last line of the text, nothing comes behind it. -/
theorem endsWith_of_line (h : GoesOn text offset ('/' :: '/' :: cs))
    (hend : skipLine cs = [] → answer = none)
    (hbehind : ∀ next, GoesOn text next (skipLine cs) → isJoinedAt text next = false →
      EndsWith text answer depth next) : EndsWith text answer depth offset := by
  have hskip : skipLine ('/' :: '/' :: cs) = skipLine cs := by
    rw [skipLine_cons (by decide), skipLine_cons (by decide)]
  apply EndsWith.later (round_of_line h)
  rcases goesOn_lineClose h with hgoes | ⟨hnil, hsize⟩
  · rw [hskip] at hgoes
    exact hbehind _ hgoes.next (isJoinedAt_next hgoes)
  · rw [hend (hskip ▸ hnil)]
    exact endsWith_none_of_size_le (Nat.le_succ_of_le hsize)

section Block

variable (h : GoesOn text offset ('/' :: '*' :: cs))
include h

theorem endsWith_none_of_block (hskip : skipBlock cs = none) : EndsWith text none depth offset := by
  have hround : round text depth offset = _ := round_of_block h
  have hclose := rel_blockClose? h.next.next
  rw [hskip] at hclose
  generalize blockClose? cs = before? at hround hclose
  cases hclose with
  | none => exact .now hround

theorem endsWith_of_block (hskip : skipBlock cs = some rest)
    (hbehind : ∀ next, GoesOn text next rest → isJoinedAt text next = false →
      EndsWith text answer depth next) : EndsWith text answer depth offset := by
  have hround : round text depth offset = _ := round_of_block h
  have hclose := rel_blockClose? h.next.next
  rw [hskip] at hclose
  generalize blockClose? cs = before? at hround hclose
  cases hclose with
  | some hgoes => exact .later hround (hbehind _ hgoes.next.next (isJoinedAt_next hgoes.next))

end Block

/-- Any other character is passed, byte by byte. -/
theorem endsWith_of_other {c : Char} (h : GoesOn text offset (c :: cs)) (hopen : c ≠ '(')
    (hclose : c ≠ ')') (hquote : ¬ (c = '"' ∨ c = '\'' ∧ isJoinedAt text offset = false))
    (hline : ¬ (c = '/' ∧ cs.head? = some '/')) (hblock : ¬ (c = '/' ∧ cs.head? = some '*'))
    (hbehind : EndsWith text answer depth (offset + c.utf8Size)) :
    EndsWith text answer depth offset := by
  have hseen : ∀ d : Char, d.utf8Size = 1 → (lead c = d ↔ c = d) := fun d hd => lead_eq_iff hd
  have hround : round text depth offset = .goesOn depth (offset + 1) := by
    apply round_of_other h.byteAt?_cons
    · rwa [Ne, hseen _ (by decide)]
    · rwa [Ne, hseen _ (by decide)]
    · rwa [hseen _ (by decide), hseen _ (by decide)]
    · rw [hseen _ (by decide)]
      rintro ⟨rfl, hsecond⟩
      exact hline ⟨rfl, (h.next.byteAt?_eq_some_iff (by decide)).mp hsecond⟩
    · rw [hseen _ (by decide)]
      rintro ⟨rfl, hsecond⟩
      exact hblock ⟨rfl, (h.next.byteAt?_eq_some_iff (by decide)).mp hsecond⟩
  apply EndsWith.later hround
  refine h.of_end (P := EndsWith text answer depth) ?_ hbehind
  exact fun i b hb hlong hnext => .later (round_of_utf8Size_ne_one hb hlong) hnext

/-- The loop on offsets ends with what the scanner on characters finds. -/
theorem endsWith_afterClosing {joined : Bool} (h : GoesOn text offset cs)
    (hjoined : isJoinedAt text offset = joined) :
    EndsWith text ((afterClosing depth joined cs).map fun rest => size text - byteLength rest - 1)
      depth offset := by
  fun_induction afterClosing depth joined cs generalizing offset with
  | case1 depth joined => exact endsWith_none_of_size_le (byteAt?_eq_none_iff.mp h.byteAt?_nil)
  | case2 depth joined cs ih => exact .later (round_of_open h) (ih h.next (isJoinedAt_next h))
  | case3 joined cs => exact .now (round_of_close h)
  | case4 joined cs =>
      have hparen : ')'.utf8Size = 1 := rfl
      have hsize : size text - byteLength cs - 1 = offset := by
        rw [h.size_eq, byteLength, hparen]
        omega
      rw [Option.map_some, hsize]
      exact .now (round_of_close h)
  | case5 joined cs outer _ ih => exact .later (round_of_close h) (ih h.next (isJoinedAt_next h))
  | case6 depth joined c cs hopen hclose hquote hskip =>
      exact endsWith_none_of_quote h (hjoined ▸ hquote) hskip
  | case7 depth joined c cs hopen hclose hquote behind hskip _ ih =>
      exact endsWith_of_quote h (hjoined ▸ hquote) hskip fun _ => ih
  | case8 depth joined c cs hopen hclose hquote hline _ ih =>
      obtain ⟨rfl, hhead⟩ := hline
      obtain ⟨cs, rfl⟩ := List.head?_eq_some_iff.mp hhead
      rw [skipLine_cons (by decide)] at ih ⊢
      refine endsWith_of_line h (fun hnil => ?_) fun _ => ih
      rw [hnil, afterClosing, Option.map_none]
  | case9 depth joined c cs hopen hclose hquote hline hblock hskip =>
      obtain ⟨rfl, hhead⟩ := hblock
      obtain ⟨cs, rfl⟩ := List.head?_eq_some_iff.mp hhead
      exact endsWith_none_of_block h hskip
  | case10 depth joined c cs hopen hclose hquote hline hblock behind hskip _ ih =>
      obtain ⟨rfl, hhead⟩ := hblock
      obtain ⟨cs, rfl⟩ := List.head?_eq_some_iff.mp hhead
      exact endsWith_of_block h hskip fun _ => ih
  | case11 depth joined c cs hopen hclose hquote hline hblock ih =>
      exact endsWith_of_other h hopen hclose (hjoined ▸ hquote) hline hblock
        (ih h.next (isJoinedAt_next h))

end Loop

/-- The scanner jumps over literals and comments, and finds what reading byte by byte finds. As a
loop over offsets it comes to its end on every text, with this answer only and with no cut inside a
character. The answer is the first byte behind which no parenthesis is left open, and text behind
that byte does not change it. -/
theorem scanner_finds_first_closing_byte (text : String) :
    (∀ answer, EndsWith text answer 0 0 ↔ answer = closingParen? text) ∧
      (∀ offset, closingParen? text = some offset ↔
        IsLeast {i | Reading.start.ClosesAt (utf8 text.toList) i} offset) ∧
      ∀ offset suffix, closingParen? text = some offset →
        closingParen? (text ++ suffix) = some offset := by
  have hends : EndsWith text (closingParen? text) 0 0 := endsWith_afterClosing (goesOn_zero text) rfl
  refine ⟨fun answer => ⟨fun h => h.unique hends, ?_⟩, fun offset => ?_, fun offset suffix h => ?_⟩
  · rintro rfl
    exact hends
  · rw [closingParen?_eq_firstClosing?, Reading.firstClosing?_eq_some_iff]
  · rw [closingParen?_eq_firstClosing?] at h ⊢
    rw [String.toList_append, utf8_append]
    exact Reading.firstClosing?_append h (utf8 suffix.toList)

/-- A quote that is escaped, an escaped character of two bytes, a separated number and a comment that
a slash seems to close, with parentheses in between. -/
theorem scanner_finds_first_closing_byte_escaped :
    let text := "(char q = '\\'', s = \"\\é)\", n = 1'000 /*/ ) */) // )"
    closingParen? text = some 46 ∧ EndsWith text (some 46) 0 0 ∧
      IsLeast {i | Reading.start.ClosesAt (utf8 text.toList) i} 46 ∧
      ∀ suffix, closingParen? (text ++ suffix) = some 46 := by
  intro text
  have hclose : closingParen? text = some 46 := by
    rw [closingParen?_eq_firstClosing?]
    decide +kernel
  obtain ⟨hends, hleast, hsuffix⟩ := scanner_finds_first_closing_byte text
  exact ⟨hclose, (hends _).mpr hclose.symm, (hleast 46).mp hclose,
    fun suffix => hsuffix 46 suffix hclose⟩

end CachedCalls.Lexical
