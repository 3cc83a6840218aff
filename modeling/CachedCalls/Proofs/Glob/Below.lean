/-
# Patterns for what lies below directories

A doubled star in front of a word and another one behind it ask for everything below
directories of that name; a star behind the word also lets the name go on. Although a
star takes slashes too, this asks for no more than it should: in front of the slash
that is asked for, the name has ended already, at the first slash behind the word.
-/

import CachedCalls.Proofs.Files.Components
import CachedCalls.Proofs.Glob.Language
import CachedCalls.Proofs.Text.Utf8

namespace CachedCalls.Glob

/-- The tokens of a pattern for what lies below directories whose names are a word, and
what more tokens take behind it. -/
def below (word : List Char) (more : List Token) : List Token :=
  .leading :: (word.map .literal ++ (more ++ [.trailing]))

/-! ## Reading -/

/-- A character of one byte that stands for itself in a pattern. -/
def isPlain (c : Char) : Bool :=
  c.utf8Size == 1 && decide (c ∉ ['?', '*', '[', '\x7b', '\x7d', ',', '\\'])

theorem utf8Size_of_all_isPlain {word : List Char} (h : word.all isPlain = true) :
    ∀ c ∈ word, c.utf8Size = 1 := by
  intro c hc
  have hplain := List.all_eq_true.mp h c hc
  rw [isPlain, Bool.and_eq_true] at hplain
  exact eq_of_beq hplain.1

theorem readTokens_plain (state : State) {c : Char} (h : isPlain c = true) (rest : List Char) :
    readTokens state (c :: rest) = readTokens (state.push (.literal c) c) rest := by
  simp only [isPlain, Bool.and_eq_true, decide_eq_true_eq, List.mem_cons, List.not_mem_nil,
    or_false, not_or] at h
  obtain ⟨-, hany, hstar, hclass, hopen, hclose, hcomma, hescape⟩ := h
  conv_lhs => unfold readTokens
  rw [if_neg hany, if_neg hstar, if_neg hclass, if_neg hopen, if_neg hclose,
    if_neg hcomma, if_neg hescape]

/-- The characters of a word become literals, last first. -/
theorem exists_readTokens_word (state : State) {word : List Char} (h : word.all isPlain = true)
    (rest : List Char) :
    ∃ previous, readTokens state (word ++ rest) =
      readTokens ⟨(word.map .literal).reverse ++ state.branch, state.groups, previous⟩ rest := by
  induction word generalizing state with
  | nil => exact ⟨state.previous, rfl⟩
  | cons c word ih =>
      rw [List.all_cons, Bool.and_eq_true] at h
      obtain ⟨previous, hprevious⟩ := ih (state.push (.literal c) c) h.2
      refine ⟨previous, ?_⟩
      rw [List.cons_append, readTokens_plain state h.1, hprevious]
      simp [State.push]

theorem readTokens_leading (rest : List Char) :
    readTokens .initial ('*' :: '*' :: '/' :: rest) =
      readTokens ⟨[.leading], [], some '/'⟩ rest := by
  rw [readTokens]
  simp [State.pushDoubleStar, State.initial, State.push]

theorem readTokens_star (state : State) (rest : List Char) :
    readTokens state ('*' :: '/' :: rest) =
      readTokens (state.push .anyBytes '*') ('/' :: rest) := by
  rw [readTokens]
  simp

theorem readTokens_trailing (state : State) :
    readTokens state ['/', '*', '*'] =
      .ok ⟨.trailing :: state.branch, state.groups, some '*'⟩ := by
  rw [readTokens_plain state (by decide), readTokens]
  simp [State.pushDoubleStar, State.push, State.atComponentStart, State.absorb, readTokens]

theorem parse_below (word : String) (h : word.toList.all isPlain = true) :
    parse ("**/" ++ word ++ "/**") = .ok ⟨"**/" ++ word ++ "/**", below word.toList []⟩ := by
  obtain ⟨previous, hword⟩ := exists_readTokens_word ⟨[.leading], [], some '/'⟩ h ['/', '*', '*']
  have hread : readTokens .initial ("**/" ++ word ++ "/**").toList =
      .ok ⟨.trailing :: ((word.toList.map .literal).reverse ++ [.leading]), [], some '*'⟩ := by
    have htext : ("**/" ++ word ++ "/**").toList =
        '*' :: '*' :: '/' :: (word.toList ++ ['/', '*', '*']) := by simp
    rw [htext, readTokens_leading, hword, readTokens_trailing]
  unfold parse readPattern
  rw [hread]
  simp [bind, Except.bind, pure, Except.pure, below]

theorem parse_belowStart (word : String) (h : word.toList.all isPlain = true) :
    parse ("**/" ++ word ++ "*/**") =
      .ok ⟨"**/" ++ word ++ "*/**", below word.toList [.anyBytes]⟩ := by
  obtain ⟨previous, hword⟩ :=
    exists_readTokens_word ⟨[.leading], [], some '/'⟩ h ['*', '/', '*', '*']
  have hread : readTokens .initial ("**/" ++ word ++ "*/**").toList =
      .ok ⟨.trailing :: .anyBytes :: ((word.toList.map .literal).reverse ++ [.leading]), [],
        some '*'⟩ := by
    have htext : ("**/" ++ word ++ "*/**").toList =
        '*' :: '*' :: '/' :: (word.toList ++ ['*', '/', '*', '*']) := by simp
    rw [htext, readTokens_leading, hword, readTokens_star, readTokens_trailing]
    rfl
  unfold parse readPattern
  rw [hread]
  simp [bind, Except.bind, pure, Except.pure, below]

/-! ## Matching -/

theorem language_append (tokens others : List Token) :
    language (tokens ++ others) = language tokens * language others := by
  induction tokens with
  | nil => rw [List.nil_append, language, one_mul]
  | cons token tokens ih => rw [List.cons_append, language, language, ih, mul_assoc]

theorem language_literals (word : List Char) : language (word.map .literal) = {Text.utf8 word} := by
  induction word with
  | nil => rfl
  | cons c word ih =>
      rw [List.map_cons, language, ih, Token.language]
      ext taken
      rw [Language.mem_mul]
      constructor
      · rintro ⟨-, rfl, -, rfl, rfl⟩
        rfl
      · rintro rfl
        exact ⟨_, rfl, _, rfl, rfl⟩

theorem mem_slash {taken : List UInt8} : taken ∈ slash ↔ taken = ['/'.val.toUInt8] := by
  constructor
  · rintro ⟨b, hb, rfl⟩
    rw [eq_of_beq hb]
    rfl
  · rintro rfl
    exact ⟨_, rfl, rfl⟩

/-- A text falls apart at a slash that a pattern asks for. -/
theorem utf8_mem_mul_slash_mul {cs : List Char} {before after : Language UInt8} :
    Text.utf8 cs ∈ before * (slash * after) ↔
      ∃ front back, cs = front ++ '/' :: back ∧ Text.utf8 front ∈ before ∧ Text.utf8 back ∈ after := by
  constructor
  · intro h
    obtain ⟨first, hfirst, rest, hrest, happend⟩ := Language.mem_mul.mp h
    obtain ⟨taken, htaken, last, hlast, rfl⟩ := Language.mem_mul.mp hrest
    obtain rfl := mem_slash.mp htaken
    obtain ⟨front, back, rfl, rfl, rfl⟩ :=
      (Text.utf8_eq_append_cons_iff (d := '/') (by decide)).mp happend.symm
    exact ⟨front, back, rfl, hfirst, hlast⟩
  · rintro ⟨front, back, rfl, hfront, hback⟩
    rw [(Text.utf8_eq_append_cons_iff (d := '/') (by decide)).mpr ⟨front, back, rfl, rfl, rfl⟩]
    exact Language.append_mem_mul hfront (Language.append_mem_mul (mem_slash.mpr rfl) hback)

/-- Behind any directories a piece begins. -/
theorem utf8_mem_directories_mul {cs : List Char} {after : Language UInt8} :
    Text.utf8 cs ∈ directories * after ↔
      ∃ front back, Path.EndsPiece front ∧ cs = front ++ back ∧ Text.utf8 back ∈ after := by
  rw [directories, add_mul, one_mul, mul_assoc, Language.mem_add, utf8_mem_mul_slash_mul]
  constructor
  · rintro (h | ⟨front, back, rfl, -, hback⟩)
    · exact ⟨[], cs, .inl rfl, rfl, h⟩
    · exact ⟨front ++ ['/'], back, .inr ⟨front, rfl⟩, by simp, hback⟩
  · rintro ⟨front, back, rfl | ⟨before, rfl⟩, rfl, hback⟩
    · exact .inl hback
    · exact .inr ⟨before, back, by simp, trivial, hback⟩

theorem utf8_mem_word_mul {word : List Char} (hword : ∀ c ∈ word, c.utf8Size = 1) {cs : List Char}
    {after : Language UInt8} :
    Text.utf8 cs ∈ {Text.utf8 word} * after ↔
      ∃ back, cs = word ++ back ∧ Text.utf8 back ∈ after := by
  constructor
  · intro h
    obtain ⟨-, rfl, rest, hrest, happend⟩ := Language.mem_mul.mp h
    obtain ⟨back, rfl, rfl⟩ := (Text.utf8_eq_utf8_append_iff hword).mp happend.symm
    exact ⟨back, rfl, hrest⟩
  · rintro ⟨back, rfl, hback⟩
    rw [Text.utf8_append]
    exact Language.append_mem_mul rfl hback

theorem utf8_mem_language_below {word : List Char} (hword : ∀ c ∈ word, c.utf8Size = 1)
    {more : List Token} {cs : List Char} :
    Text.utf8 cs ∈ language (below word more) ↔
      ∃ front inside back, Path.EndsPiece front ∧ cs = front ++ (word ++ inside ++ '/' :: back) ∧
        Text.utf8 inside ∈ language more := by
  have hlanguage : language (below word more) =
      directories * ({Text.utf8 word} * (language more * (slash * ⊤))) := by
    rw [below, language, language_append, language_literals, language_append, language, language,
      mul_one]
    rfl
  rw [hlanguage, utf8_mem_directories_mul]
  constructor
  · rintro ⟨front, behind, hfront, rfl, hbehind⟩
    obtain ⟨rest, rfl, hrest⟩ := (utf8_mem_word_mul hword).mp hbehind
    obtain ⟨inside, back, rfl, hinside, -⟩ := utf8_mem_mul_slash_mul.mp hrest
    exact ⟨front, inside, back, hfront, by rw [List.append_assoc], hinside⟩
  · rintro ⟨front, inside, back, hfront, rfl, h⟩
    refine ⟨front, _, hfront, rfl, ?_⟩
    rw [List.append_assoc, utf8_mem_word_mul hword]
    exact ⟨_, rfl, utf8_mem_mul_slash_mul.mpr ⟨inside, back, rfl, h, trivial⟩⟩

/-! ## The method -/

theorem areLiterals_of_trailing_mem {tokens : List Token} (without : List Char)
    (h : .trailing ∈ tokens) : areLiterals without tokens = false := by
  have hnone : literals? tokens = none := by
    induction tokens with
    | nil => cases h
    | cons token tokens ih =>
        cases token with
        | literal c =>
            rw [literals?, ih (by simpa using h)]
            rfl
        | _ => rfl
  rw [areLiterals, hnone]
  rfl

/-- A pattern for everything below something is no pattern for names of files. -/
theorem needsFileName_of_trailing (tokens : List Token) :
    (method (tokens ++ [.trailing])).needsFileName = false := by
  have hmem : ∀ rest, tokens ++ [.trailing] = rest → Token.trailing ∈ rest := by
    rintro _ rfl
    simp
  have hname : asksName (tokens ++ [.trailing]) = false := by
    unfold asksName
    split
    · next heq => exact areLiterals_of_trailing_mem _ (by simpa using hmem _ heq)
    · rfl
  have hextension : asksExtension (tokens ++ [.trailing]) = false := by
    unfold asksExtension
    split
    · next heq => exact areLiterals_of_trailing_mem _ (by simpa using hmem _ heq)
    · next heq => exact areLiterals_of_trailing_mem _ (by simpa using hmem _ heq)
    · rfl
  have hends : endsInExtension (tokens ++ [Token.trailing]).reverse = false := by
    rw [List.reverse_append]
    rfl
  unfold method
  rw [hname, hextension, hends]
  simp only [Bool.false_eq_true, if_false]
  split_ifs <;> rfl

variable {pattern path : String} {word : List Char} (hword : word.all isPlain = true)
include hword

theorem isMatch_below_iff {more : List Token} :
    (Glob.mk pattern (below word more)).isMatch path = true ↔
      ∃ front inside back, Path.EndsPiece front ∧
        path.toList = front ++ (word ++ inside ++ '/' :: back) ∧ Text.utf8 inside ∈ language more := by
  have hmethod : (method (below word more)).needsFileName = false := by
    rw [below, ← List.append_assoc, ← List.cons_append]
    exact needsFileName_of_trailing _
  have hlone : below word more ≠ [.leading] := by simp [below]
  rw [isMatch_iff, hmethod, or_iff_right hlone, and_iff_right nofun]
  exact utf8_mem_language_below (utf8Size_of_all_isPlain hword)

/-- What lies below a directory of a name has the name among its pieces, and not as the
last one. -/
theorem isMatch_below_name_iff (hslash : '/' ∉ word) :
    (Glob.mk pattern (below word [])).isMatch path = true ↔
      word ∈ (Path.pieces path.toList).dropLast := by
  rw [isMatch_below_iff hword, Path.mem_dropLast_pieces_iff, and_iff_right hslash]
  refine exists_congr fun front => ?_
  constructor
  · rintro ⟨inside, back, hfront, htext, hinside⟩
    obtain rfl := Text.utf8_eq_nil hinside
    exact ⟨back, hfront, by rw [htext, List.append_nil]⟩
  · rintro ⟨back, hfront, htext⟩
    exact ⟨[], back, hfront, by rw [htext, List.append_nil], rfl⟩

/-- A star behind a word takes slashes as well, but the piece that begins with the word
ends at the first of them. -/
theorem isMatch_below_start_iff (hslash : '/' ∉ word) :
    (Glob.mk pattern (below word [.anyBytes])).isMatch path = true ↔
      ∃ piece ∈ (Path.pieces path.toList).dropLast, word <+: piece := by
  have hany : ∀ inside, Text.utf8 inside ∈ language [.anyBytes] := by
    intro inside
    rw [language, language, mul_one]
    trivial
  rw [isMatch_below_iff hword]
  constructor
  · rintro ⟨front, inside, back, hfront, htext, -⟩
    have hmem : '/' ∈ inside ++ '/' :: back := by simp
    obtain ⟨first, rest, hfirst, hnone⟩ := List.eq_append_cons_of_mem hmem
    refine ⟨word ++ first, Path.mem_dropLast_pieces_iff.mpr ⟨?_, front, rest, hfront, ?_⟩,
      List.prefix_append _ _⟩
    · rw [List.mem_append, not_or]
      exact ⟨hslash, hnone⟩
    · rw [htext, List.append_assoc, hfirst, List.append_assoc]
  · rintro ⟨-, hmem, inside, rfl⟩
    obtain ⟨-, front, back, hfront, htext⟩ := Path.mem_dropLast_pieces_iff.mp hmem
    exact ⟨front, inside, back, hfront, htext, hany inside⟩

end CachedCalls.Glob
