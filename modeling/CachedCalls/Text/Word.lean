/-
# Identifiers and the words of a text

An identifier is ASCII, while words are delimited by Unicode word characters. The scan therefore
reports an identifier only where it is a whole word: a run of identifier characters that touches
any other word character, on either side, is not reported and neither is a part of it.
-/

import CachedCalls.Text.WordChar

namespace CachedCalls.Text

/-- Whether a text is an ASCII identifier. -/
def isIdentifier (text : String) : Bool :=
  match text.toList with
  | [] => false
  | c :: cs => isIdentifierStart c && cs.all isIdentifierChar

/-- Whether a character sequence continues a word that ends right in front of it. -/
def continuesWord : List Char → Bool
  | [] => false
  | c :: _ => isWordChar c

/-- Identifiers that stand as whole words in a character sequence, in order. `inWord` says whether
the sequence is preceded by a word character. -/
def identifiersFrom (inWord : Bool) : List Char → List (List Char)
  | [] => []
  | c :: cs =>
    let later := identifiersFrom (isWordChar c) cs
    if !inWord && isIdentifierStart c && !continuesWord (cs.dropWhile isIdentifierChar) then
      (c :: cs.takeWhile isIdentifierChar) :: later
    else later

/-- Identifiers that stand as whole words in a text, in order and with repetitions. -/
def identifiers (text : String) : List String :=
  (identifiersFrom false text.toList).map String.ofList

/-- Non-empty runs of identifier characters in a character sequence, in order. -/
def identifierRuns : List Char → List (List Char)
  | [] => []
  | c :: cs =>
    if isIdentifierChar c then
      match cs, identifierRuns cs with
      | next :: _, run :: runs =>
        if isIdentifierChar next then (c :: run) :: runs else [c] :: run :: runs
      | _, runs => [c] :: runs
    else identifierRuns cs

end CachedCalls.Text
