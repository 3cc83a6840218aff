/-
# Readers of text

A reader takes something off the front of a text, or stops with a fault at some place of it. The
place is remembered by what is left of the text there, so readers count nothing while they work; it
turns into a line and a column once the whole text is at hand again.
-/

import CachedCalls.Json.Fault
import CachedCalls.Text.Bytes

namespace CachedCalls

/-- Where and why reading stopped. -/
structure Stop where
  fault : DecodeFault
  /-- What was left of the text. -/
  rest : List Char
  /-- How many bytes of the rest lie in front of the place that is reported. -/
  ahead : Nat

namespace Stop

/-- The fault with its place in the text that was read. -/
def locate (stop : Stop) (text : List Char) : LocatedFault :=
  let taken := Text.byteLength text - Text.byteLength stop.rest
  ⟨stop.fault, Position.start.advance (taken + stop.ahead) text⟩

end Stop

/-- A reader takes a text and gives what it read with the rest of the text. -/
abbrev Reader (α : Type) := StateT (List Char) (Except Stop) α

namespace Reader

/-- Stop with a fault at the present place. -/
def fail {α : Type} (fault : DecodeFault) : Reader α := fun cs =>
  .error ⟨fault, cs, 0⟩

/-- Stop because the text is not JSON, at the place where `rest` is left. -/
def flawAt {α : Type} (flaw : Json.Flaw) (rest : List Char) (ahead : Nat) :
    Except Stop α :=
  .error ⟨.malformed flaw, rest, ahead⟩

/-- Stop because of the next byte, or because there is none. -/
def flaw {α : Type} (flaw : Json.Flaw) : Reader α := fun cs =>
  flawAt flaw cs 1

/-- Whether a character may stand between the tokens of a text. -/
def isGap (c : Char) : Bool :=
  c == ' ' || c == '\n' || c == '\t' || c == '\r'

/-- The next character behind blanks. The blanks are passed, the character is not. -/
def peek : Reader (Option Char) := fun cs =>
  let rest := cs.dropWhile isGap
  .ok (rest.head?, rest)

/-- Pass one character. -/
def advance : Reader Unit := fun cs =>
  .ok ((), cs.drop 1)

/-- Pass a word character by character. -/
def word : List Char → Reader Unit
  | [], cs => .ok ((), cs)
  | _ :: _, [] => flawAt .endInValue [] 0
  | c :: more, d :: rest => if c = d then word more rest else flawAt .noWord (d :: rest) 1

/-- Stop with a fault of an array or object as a whole. Its place is behind blanks and behind the
closing character, where these follow. -/
def failWhole {α : Type} (close : Char) (fault : DecodeFault) : Reader α := do
  if (← peek) = some close then advance
  fail fault

/-- Nothing but blanks is left. -/
def finish : Reader Unit := do
  if (← peek).isSome then flaw .trailingText

/-- Read a text that holds nothing else. -/
def run {α : Type} (reader : Reader α) (text : String) : Except LocatedFault α :=
  match (do let value ← reader; finish; return value : Reader α) text.toList with
  | .ok (value, _) => .ok value
  | .error stop => .error (stop.locate text.toList)

end Reader

end CachedCalls
