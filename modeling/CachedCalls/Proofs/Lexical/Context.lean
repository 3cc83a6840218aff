/-
# The context of a place in C++ text

A place of a text lies in code, in a literal or in a comment, and which of these
it is follows from the characters in front of it alone. The machine of this
module reads one character at a time and knows the context of the place it has
reached. It jumps over nothing, so the context behind two texts is found by
reading one after the other, and what a text does to the places behind it is
said by the context it ends in.

Blanks are special only in a comment that runs to the end of its line: there a
line break leads back into code. Everywhere else a blank keeps a place in code
or keeps it out of code. The scanner for matching parentheses agrees with the
machine as far as it goes: the parenthesis it finds stands in code.
-/

import CachedCalls.Lexical
import CachedCalls.Proofs.Text.Trim
import CachedCalls.Text.Word
import Mathlib.Data.List.Induction
import Mathlib.Tactic.SplitIfs

namespace CachedCalls.Lexical

open Text

/-- The quotes that delimit literals. -/
inductive Quote where
  | single
  | double
deriving DecidableEq, Repr

/-- The character that opens and closes a literal. -/
def Quote.mark : Quote → Char
  | single => '\''
  | double => '"'

/-- Where a place of a text lies. -/
inductive Context where
  /-- In code. `joined` says whether an ASCII letter or digit stands directly in front. -/
  | code (joined : Bool)
  /-- In code, behind a slash that may still turn out to open a comment. -/
  | slash
  | literal (quote : Quote)
  /-- In a literal, behind a backslash. -/
  | escaped (quote : Quote)
  | lineComment
  | blockComment
  /-- In a delimited comment, behind a star that may still turn out to close it. -/
  | star
  /-- Behind a line break inside a literal, where no context can be told. -/
  | broken
deriving DecidableEq, Repr

namespace Context

/-- Outside every literal and comment. -/
def isCode : Context → Bool
  | code _ | slash => true
  | literal _ | escaped _ | lineComment | blockComment | star | broken => false

theorem eq_code_or_eq_slash_of_isCode {context : Context} (h : context.isCode = true) :
    (∃ joined, context = code joined) ∨ context = slash := by
  cases context with
  | code joined => exact Or.inl ⟨joined, rfl⟩
  | slash => exact Or.inr rfl
  | literal quote => cases h
  | escaped quote => cases h
  | lineComment => cases h
  | blockComment => cases h
  | star => cases h
  | broken => cases h

/-- The context behind a character of code that completes no opening of a comment. A single quote
behind a letter or digit separates digits. -/
def ofCode (joined : Bool) (c : Char) : Context :=
  if c = '"' then literal .double
  else if c = '\'' ∧ joined = false then literal .single
  else if c = '/' then slash
  else code c.isAlphanum

/-- The context behind one more character. -/
def step : Context → Char → Context
  | code joined, c => ofCode joined c
  | slash, c =>
    if c = '/' then lineComment else if c = '*' then blockComment else ofCode false c
  | literal quote, c =>
    if c = '\\' then escaped quote
    else if c = quote.mark then code false
    else if c = '\n' then broken
    else literal quote
  | escaped quote, _ => literal quote
  | lineComment, c => if c = '\n' then code false else lineComment
  | blockComment, c => if c = '*' then star else blockComment
  | star, c => if c = '/' then code false else if c = '*' then star else blockComment
  | broken, _ => broken

/-- The context behind several more characters. -/
def run (context : Context) (cs : List Char) : Context :=
  cs.foldl step context

@[simp]
theorem run_nil (context : Context) : context.run [] = context := rfl

@[simp]
theorem run_cons (context : Context) (c : Char) (cs : List Char) :
    context.run (c :: cs) = (context.step c).run cs := rfl

@[simp]
theorem run_append (context : Context) (cs ds : List Char) :
    context.run (cs ++ ds) = (context.run cs).run ds :=
  List.foldl_append

end Context

/-- The context at the end of a text that begins in code. -/
def scan (text : String) : Context :=
  (Context.code false).run text.toList

/-- What follows the text stands in code. -/
def EndsInCode (text : String) : Prop :=
  (scan text).isCode = true

instance (text : String) : Decidable (EndsInCode text) :=
  inferInstanceAs (Decidable (_ = true))

/-- The last line of a text has a comment that runs to its end: two slashes follow on a place in
code and no line break comes behind them. -/
def EndsInLineComment (text : String) : Prop :=
  ∃ front comment joined, text.toList = front ++ '/' :: '/' :: comment ∧ '\n' ∉ comment ∧
    (Context.code false).run front = .code joined

namespace Context

/-! ## Blanks -/

theorem ne_of_isBlank {c d : Char} (h : isBlank c = true) (hd : isBlank d = false) : c ≠ d := by
  intro heq
  rw [heq, hd] at h
  cases h

/-- The numbers of ASCII letters and digits. -/
theorem isAlphanum_iff_toNat {c : Char} :
    c.isAlphanum = true ↔
      65 ≤ c.toNat ∧ c.toNat ≤ 90 ∨ 97 ≤ c.toNat ∧ c.toNat ≤ 122 ∨ 48 ≤ c.toNat ∧ c.toNat ≤ 57 := by
  unfold Char.isAlphanum Char.isAlpha Char.isUpper Char.isLower Char.isDigit
  simp [UInt32.le_iff_toNat_le, or_assoc]

theorem isAlphanum_of_isBlank {c : Char} (h : isBlank c = true) : c.isAlphanum = false := by
  rw [← Bool.not_eq_true, isAlphanum_iff_toNat]
  unfold isBlank at h
  simp at h
  omega

theorem ofCode_of_isBlank {c : Char} (h : isBlank c = true) (joined : Bool) :
    ofCode joined c = code false := by
  have hdouble : c ≠ '"' := ne_of_isBlank h (by decide)
  have hsingle : c ≠ '\'' := ne_of_isBlank h (by decide)
  have hslash : c ≠ '/' := ne_of_isBlank h (by decide)
  simp [ofCode, hdouble, hsingle, hslash, isAlphanum_of_isBlank h]

/-- What a blank does in each context: code stays code, a comment ends with its line if it can, and
no other context comes closer to code. -/
theorem step_of_isBlank {c : Char} (h : isBlank c = true) (context : Context) :
    context.step c =
      match context with
      | code _ | slash => code false
      | literal quote => if c = '\n' then broken else literal quote
      | escaped quote => literal quote
      | lineComment => if c = '\n' then code false else lineComment
      | blockComment | star => blockComment
      | broken => broken := by
  have hslash : c ≠ '/' := ne_of_isBlank h (by decide)
  have hstar : c ≠ '*' := ne_of_isBlank h (by decide)
  cases context with
  | code joined => exact ofCode_of_isBlank h joined
  | slash => simp [step, hslash, hstar, ofCode_of_isBlank h]
  | literal quote =>
      have hback : c ≠ '\\' := ne_of_isBlank h (by decide)
      have hmark : c ≠ quote.mark := ne_of_isBlank h (by cases quote <;> decide)
      simp [step, hback, hmark]
  | escaped quote => rfl
  | lineComment => rfl
  | blockComment => simp [step, hstar]
  | star => simp [step, hslash, hstar]
  | broken => rfl

/-- Blanks lead into code only from code, and from a comment that one of them ends. -/
theorem isCode_run_iff_of_allBlank {blanks : List Char} (h : AllBlank blanks)
    (context : Context) :
    (context.run blanks).isCode = true ↔
      context.isCode = true ∨ context = lineComment ∧ '\n' ∈ blanks := by
  induction blanks generalizing context with
  | nil => simp
  | cons c blanks ih =>
      have hc : isBlank c = true := h c List.mem_cons_self
      rw [run_cons, ih fun d hd => h d (List.mem_cons_of_mem c hd), step_of_isBlank hc]
      cases context with
      | code joined => simp [isCode]
      | slash => simp [isCode]
      | literal quote => split_ifs <;> simp [isCode]
      | escaped quote => simp [isCode]
      | lineComment =>
          by_cases hbreak : c = '\n'
          · simp [hbreak, isCode]
          · simp [hbreak, Ne.symm hbreak, isCode]
      | blockComment => simp [isCode]
      | star => simp [isCode]
      | broken => simp [isCode]

/-- Trimming changes what follows a text only where it cuts off the line break behind a comment. -/
theorem isCode_iff_of_allBlank {blanks : List Char} (h : AllBlank blanks) (context : Context) :
    context.isCode = true ↔ (context.run blanks).isCode = true ∧ context ≠ lineComment := by
  rw [isCode_run_iff_of_allBlank h]
  constructor
  · intro hcode
    refine ⟨Or.inl hcode, ?_⟩
    rintro rfl
    cases hcode
  · rintro ⟨hcode | hcomment, hne⟩
    · exact hcode
    · exact absurd hcomment.1 hne

theorem run_code_of_allBlank {blanks : List Char} (h : AllBlank blanks) :
    (code false).run blanks = code false := by
  induction blanks with
  | nil => rfl
  | cons c blanks ih =>
      rw [run_cons, step_of_isBlank (h c List.mem_cons_self)]
      exact ih fun d hd => h d (List.mem_cons_of_mem c hd)

/-! ## Characters that open and close nothing -/

/-- Whether a character neither opens nor closes a literal or a comment, nor escapes. -/
def isQuiet (c : Char) : Bool :=
  !(['"', '\'', '/', '*', '\\', '\n'].contains c)

theorem step_of_isQuiet {c : Char} (h : isQuiet c = true) (context : Context) :
    context.step c =
      match context with
      | code _ | slash => code c.isAlphanum
      | literal quote | escaped quote => literal quote
      | lineComment => lineComment
      | blockComment | star => blockComment
      | broken => broken := by
  simp only [isQuiet, List.contains_cons, List.contains_nil, Bool.or_false, Bool.not_or,
    Bool.and_eq_true, Bool.not_eq_true', beq_eq_false_iff_ne] at h
  obtain ⟨hdouble, hsingle, hslash, hstar, hback, hbreak⟩ := h
  cases context with
  | code joined => simp [step, ofCode, hdouble, hsingle, hslash]
  | slash => simp [step, ofCode, hdouble, hsingle, hslash, hstar]
  | literal quote =>
      have hmark : c ≠ quote.mark := by
        cases quote with
        | single => exact hsingle
        | double => exact hdouble
      simp [step, hback, hmark, hbreak]
  | escaped quote => rfl
  | lineComment => simp [step, hbreak]
  | blockComment => simp [step, hstar]
  | star => simp [step, hslash, hstar]
  | broken => rfl

theorem isCode_run_iff_of_isQuiet {cs : List Char} (h : ∀ c ∈ cs, isQuiet c = true)
    (context : Context) : (context.run cs).isCode = true ↔ context.isCode = true := by
  induction cs generalizing context with
  | nil => rfl
  | cons c cs ih =>
      rw [List.forall_mem_cons] at h
      rw [run_cons, ih h.2, step_of_isQuiet h.1]
      cases context <;> rfl

/-- No slash is pending behind a quiet character. -/
theorem exists_run_eq_code_of_isQuiet {cs : List Char} (h : ∀ c ∈ cs, isQuiet c = true)
    (hne : cs ≠ []) {context : Context} (hcode : context.isCode = true) :
    ∃ joined, context.run cs = code joined := by
  cases cs using List.reverseRecOn with
  | nil => exact absurd rfl hne
  | append_singleton cs c =>
      rw [List.forall_mem_append, List.forall_mem_singleton] at h
      rw [← isCode_run_iff_of_isQuiet h.1] at hcode
      rw [run_append, run_cons, run_nil, step_of_isQuiet h.2]
      rcases eq_code_or_eq_slash_of_isCode hcode with ⟨joined, hrun⟩ | hrun
      · exact ⟨c.isAlphanum, by rw [hrun]⟩
      · exact ⟨c.isAlphanum, by rw [hrun]⟩

/-- A property that no special character has makes a character quiet. -/
theorem isQuiet_of_any_eq_false {p : Char → Bool}
    (hspecial : ['"', '\'', '/', '*', '\\', '\n'].any p = false) {c : Char} (h : p c = true) :
    isQuiet c = true := by
  rw [isQuiet, Bool.not_eq_true', ← Bool.not_eq_true, List.contains_iff_mem]
  intro hmem
  exact List.any_eq_false.mp hspecial c hmem h

theorem isQuiet_of_isIdentifierChar {c : Char} (h : isIdentifierChar c = true) :
    isQuiet c = true :=
  isQuiet_of_any_eq_false (by decide) h

/-! ## Comments that run to the end of their line -/

theorem run_lineComment {cs : List Char} (h : '\n' ∉ cs) : lineComment.run cs = lineComment := by
  induction cs with
  | nil => rfl
  | cons c cs ih =>
      rw [List.mem_cons, not_or] at h
      rw [run_cons, step, if_neg (Ne.symm h.1), ih h.2]

/-- A slash is pending only directly behind a slash in code. -/
theorem eq_code_of_step_eq_slash {context : Context} {c : Char} (h : context.step c = slash) :
    c = '/' ∧ ∃ joined, context = code joined := by
  cases context with
  | code joined =>
      simp only [step, ofCode] at h
      split_ifs at h with _ _ hslash
      exact ⟨hslash, joined, rfl⟩
  | slash =>
      simp only [step, ofCode] at h
      split_ifs at h
  | literal quote =>
      simp only [step] at h
      split_ifs at h
  | escaped quote => cases h
  | lineComment =>
      simp only [step] at h
      split_ifs at h
  | blockComment =>
      simp only [step] at h
      split_ifs at h
  | star =>
      simp only [step] at h
      split_ifs at h
  | broken => cases h

/-- A comment that runs to the end of its line is opened by a second slash, and goes on up to the
line break. -/
theorem step_eq_lineComment {context : Context} {c : Char} (h : context.step c = lineComment) :
    context = slash ∧ c = '/' ∨ context = lineComment ∧ c ≠ '\n' := by
  cases context with
  | code joined =>
      simp only [step, ofCode] at h
      split_ifs at h
  | slash =>
      simp only [step, ofCode] at h
      split_ifs at h with hslash
      exact Or.inl ⟨rfl, hslash⟩
  | literal quote =>
      simp only [step] at h
      split_ifs at h
  | escaped quote => cases h
  | lineComment =>
      simp only [step] at h
      split_ifs at h with hbreak
      exact Or.inr ⟨rfl, hbreak⟩
  | blockComment =>
      simp only [step] at h
      split_ifs at h
  | star =>
      simp only [step] at h
      split_ifs at h
  | broken => cases h

theorem exists_front_of_run_eq_slash {cs : List Char} (h : (code false).run cs = slash) :
    ∃ front joined, cs = front ++ ['/'] ∧ (code false).run front = code joined := by
  cases cs using List.reverseRecOn with
  | nil => cases h
  | append_singleton front c =>
      rw [run_append, run_cons, run_nil] at h
      obtain ⟨rfl, joined, hfront⟩ := eq_code_of_step_eq_slash h
      exact ⟨front, joined, rfl, hfront⟩

/-- The machine is in such a comment exactly behind two slashes that follow on code, with no line
break behind them. -/
theorem run_eq_lineComment_iff {cs : List Char} :
    (code false).run cs = lineComment ↔
      ∃ front comment joined, cs = front ++ '/' :: '/' :: comment ∧ '\n' ∉ comment ∧
        (code false).run front = code joined := by
  constructor
  · intro h
    -- The last character either opens the comment or belongs to it.
    induction cs using List.reverseRecOn with
    | nil => cases h
    | append_singleton cs c ih =>
        rw [run_append, run_cons, run_nil] at h
        rcases step_eq_lineComment h with ⟨hslash, rfl⟩ | ⟨hcomment, hbreak⟩
        · obtain ⟨front, joined, rfl, hfront⟩ := exists_front_of_run_eq_slash hslash
          exact ⟨front, [], joined, by simp, by simp, hfront⟩
        · obtain ⟨front, comment, joined, rfl, hnone, hfront⟩ := ih hcomment
          exact ⟨front, comment ++ [c], joined, by simp, by simp [hnone, Ne.symm hbreak], hfront⟩
  · rintro ⟨front, comment, joined, rfl, hnone, hfront⟩
    have hopen : ((code joined).step '/').step '/' = lineComment := rfl
    rw [run_append, hfront, run_cons, run_cons, hopen, run_lineComment hnone]

end Context

theorem endsInLineComment_iff {text : String} :
    EndsInLineComment text ↔ scan text = .lineComment :=
  Context.run_eq_lineComment_iff.symm

end CachedCalls.Lexical
