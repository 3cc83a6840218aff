/-
# Matching parentheses in C++ text

Parentheses count only in code: string and character literals and comments are jumped over as a
whole. The scanner returns what follows the matching parenthesis, so each jump is a function from a
text to a shorter rest, and the position is recovered from the sizes at the end.
-/

import CachedCalls.Text.Bytes

namespace CachedCalls.Lexical

/-- What follows the literal whose opening quote has just been passed. A backslash hides the next
character; a line break or the end of the text leaves the literal open. -/
def skipLiteral (quote : Char) : List Char → Option (List Char)
  | [] => none
  | c :: rest =>
    if c = '\\' then
      match rest with
      | [] => none
      | _ :: rest => skipLiteral quote rest
    else if c = quote then some rest
    else if c = '\n' then none
    else skipLiteral quote rest

/-- What follows a comment that runs to the end of its line, the line break included. -/
def skipLine (cs : List Char) : List Char :=
  (cs.dropWhile (· ≠ '\n')).drop 1

/-- What follows a delimited comment whose opening has just been passed. -/
def skipBlock : List Char → Option (List Char)
  | [] => none
  | c :: rest =>
    if c = '*' ∧ rest.head? = some '/' then some (rest.drop 1) else skipBlock rest

theorem length_le_of_skipLiteral {quote : Char} {cs rest : List Char}
    (h : skipLiteral quote cs = some rest) : rest.length ≤ cs.length := by
  fun_induction skipLiteral quote cs <;> grind

theorem length_skipLine_le (cs : List Char) : (skipLine cs).length ≤ cs.length := by
  have h := (List.dropWhile_sublist (fun c => decide (c ≠ '\n')) (l := cs)).length_le
  simp only [skipLine, List.length_drop]
  omega

theorem length_le_of_skipBlock {cs rest : List Char} (h : skipBlock cs = some rest) :
    rest.length ≤ cs.length := by
  fun_induction skipBlock cs <;> grind

/-- What follows the parenthesis that brings the nesting back to zero, starting inside `depth` open
parentheses. `joined` says whether an ASCII letter or digit stands directly in front: a single quote
there separates digits and opens no literal. -/
def afterClosing (depth : Nat) (joined : Bool) (cs : List Char) : Option (List Char) :=
  match cs with
  | [] => none
  | c :: rest =>
    if c = '(' then afterClosing (depth + 1) false rest
    else if c = ')' then
      match depth with
      | 0 => none
      | 1 => some rest
      | outer + 2 => afterClosing (outer + 1) false rest
    else if c = '"' ∨ (c = '\'' ∧ joined = false) then
      match h : skipLiteral c rest with
      | none => none
      | some rest =>
        have := length_le_of_skipLiteral h
        afterClosing depth false rest
    else if c = '/' ∧ rest.head? = some '/' then
      have := length_skipLine_le rest
      afterClosing depth false (skipLine rest)
    else if c = '/' ∧ rest.head? = some '*' then
      match h : skipBlock (rest.drop 1) with
      | none => none
      | some rest =>
        have := length_le_of_skipBlock h
        afterClosing depth false rest
    else afterClosing depth c.isAlphanum rest
termination_by cs.length
decreasing_by all_goals simp_all; try omega

/-- Byte offset of the parenthesis that closes the first one opened in a text. -/
def closingParen? (text : String) : Option Nat :=
  (afterClosing 0 false text.toList).map fun rest =>
    Text.size text - Text.byteLength rest - 1

end CachedCalls.Lexical
