/-
# Passing over values

A member that nothing asks for is only checked to be JSON. Nothing of it is kept, so its numbers may
be of any size, its strings may hold single surrogates, and it may be nested to any depth: what is
open is kept on a stack.
-/

import CachedCalls.Json.Document

namespace CachedCalls

/-- An array or an object that is open. -/
inductive Frame where
  | list
  | object
deriving DecidableEq, Repr

namespace Frame

/-- The closing character. -/
def close : Frame → Char
  | list => ']'
  | object => '\x7d'

/-- What is wrong with a text that ends inside. -/
def endFlaw : Frame → Json.Flaw
  | list => .endInList
  | object => .endInObject

/-- What is wrong with a text that neither goes on nor closes behind a value. -/
def gapFlaw : Frame → Json.Flaw
  | list => .noListEnd
  | object => .noObjectEnd

end Frame

namespace Reader

/-- Pass over what stands in front of a value inside a frame: in an object, a name and a colon. -/
def skipKey : Frame → Reader Unit
  | .list => return
  | .object => do
    match ← peek with
    | none => flaw .endInObject
    | some c =>
      if c = '"' then
        skipQuoted
        colon
      else flaw .keyNotString

/-- Pass over a value that is neither an array nor an object. -/
def skipScalar : Reader Unit := do
  match ← peek with
  | none => flaw .endInValue
  | some c =>
    if c = '"' then skipQuoted
    else if c = 'n' then word ['n', 'u', 'l', 'l']
    else if c = 't' then word ['t', 'r', 'u', 'e']
    else if c = 'f' then word ['f', 'a', 'l', 's', 'e']
    else if c = '-' ∨ c.isDigit then discard numeral
    else flaw .noValue

/-- Pass over values until no frame is open. When `fresh` holds a value comes next, otherwise one
has just ended. The number of rounds is bounded by the characters of `bound`. -/
def skipFrom : (bound : List Char) → (fresh : Bool) → (frames : List Frame) → Reader Unit
  | _, false, [] => return
  | [], _, _ => flaw .endInValue
  | _ :: bound, false, frame :: outer => do
    match ← peek with
    | none => flaw frame.endFlaw
    | some c =>
      if c = frame.close then
        advance
        skipFrom bound false outer
      else if c = ',' then
        advance
        skipKey frame
        skipFrom bound true (frame :: outer)
      else flaw frame.gapFlaw
  | _ :: bound, true, frames => do
    let opened : Option Frame :=
      match ← peek with
      | some '[' => some .list
      | some '\x7b' => some .object
      | _ => none
    match opened with
    | none =>
      skipScalar
      skipFrom bound false frames
    | some frame =>
      advance
      if (← peek) = some frame.close then
        advance
        skipFrom bound false frames
      else
        skipKey frame
        skipFrom bound true (frame :: frames)

/-- Pass over a value. -/
def skipValue : Reader Unit := do
  skipFrom (← get) true []

end Reader

end CachedCalls
