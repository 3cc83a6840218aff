/-
# Strings in JSON text

A string stands between double quotes. Control characters must be escaped in it, and a backslash
begins an escape. Characters beyond the basic plane are escaped as two surrogate units that belong
together; a string that is only passed over may also hold single ones.
-/

import CachedCalls.Json.Reader
import CachedCalls.Text.Hex

namespace CachedCalls.Json

/-- The value of four hexadecimal digits. -/
def hexUnit? (a b c d : Char) : Option Nat := do
  let high := (← Text.hexDigit? a) * 16 + (← Text.hexDigit? b)
  let low := (← Text.hexDigit? c) * 16 + (← Text.hexDigit? d)
  return high * 256 + low

/-- The character a one-letter escape stands for. -/
def shortEscape? (c : Char) : Option Char :=
  match c with
  | '"' => some '"'
  | '\\' => some '\\'
  | '/' => some '/'
  | 'b' => some '\x08'
  | 'f' => some '\x0c'
  | 'n' => some '\n'
  | 'r' => some '\r'
  | 't' => some '\t'
  | _ => none

/-- Whether a unit is the first of a surrogate pair. -/
def isLead (unit : Nat) : Bool :=
  decide (0xD800 ≤ unit) && decide (unit ≤ 0xDBFF)

/-- Whether a unit is the second of a surrogate pair. -/
def isTrail (unit : Nat) : Bool :=
  decide (0xDC00 ≤ unit) && decide (unit ≤ 0xDFFF)

/-- The character of a pair of surrogate units. -/
def pairChar (lead trail : Nat) : Char :=
  Char.ofNat (0x10000 + (lead - 0xD800) * 0x400 + (trail - 0xDC00))

/-- Stop at an escaped unit whose digits should stand in front. -/
def badUnit {α : Type} (cs : List Char) : Except Stop α :=
  if Text.byteLength cs < 4 then Reader.flawAt .endInString [] 0
  else Reader.flawAt .badEscape cs 4

/-- Stop at an escape whose letter begins the text. -/
def badEscape {α : Type} (cs : List Char) : Except Stop α :=
  match cs with
  | [] => Reader.flawAt .endInString [] 0
  | c :: rest => if c = 'u' then badUnit rest else Reader.flawAt .badEscape cs 1

/-- Stop where the second unit of a pair should be escaped. -/
def badPair {α : Type} (cs : List Char) : Except Stop α :=
  match cs with
  | [] | ['\\'] => Reader.flawAt .endInString [] 0
  | '\\' :: 'u' :: rest => badUnit rest
  | '\\' :: rest => Reader.flawAt .brokenPair rest 1
  | _ => Reader.flawAt .brokenPair cs 1

/-- The characters of a string behind its opening quote, up to its closing one; `done` holds those
read so far, last first. -/
def stringBody (done : List Char) : List Char → Except Stop (String × List Char)
  | [] => Reader.flawAt .endInString [] 0
  | c :: rest =>
    if c = '"' then .ok (String.ofList done.reverse, rest)
    else if c = '\\' then
      match rest with
      | 'u' :: a :: b :: x :: y :: rest =>
        match hexUnit? a b x y with
        | none => badUnit (a :: b :: x :: y :: rest)
        | some unit =>
          if isTrail unit then Reader.flawAt .loneSurrogate rest 0
          else if isLead unit then
            match rest with
            | '\\' :: 'u' :: a :: b :: x :: y :: rest =>
              match hexUnit? a b x y with
              | none => badUnit (a :: b :: x :: y :: rest)
              | some trail =>
                if isTrail trail then stringBody (pairChar unit trail :: done) rest
                else Reader.flawAt .loneSurrogate rest 0
            | rest => badPair rest
          else stringBody (Char.ofNat unit :: done) rest
      | e :: rest =>
        match shortEscape? e with
        | none => badEscape (e :: rest)
        | some c => stringBody (c :: done) rest
      | [] => badEscape []
    else if c.toNat < 0x20 then Reader.flawAt .controlCharacter (c :: rest) 1
    else stringBody (c :: done) rest

/-- Pass over the characters of a string behind its opening quote, up to its closing one. -/
def skipStringBody : List Char → Except Stop (Unit × List Char)
  | [] => Reader.flawAt .endInString [] 0
  | c :: rest =>
    if c = '"' then .ok ((), rest)
    else if c = '\\' then
      match rest with
      | 'u' :: a :: b :: x :: y :: rest =>
        if (hexUnit? a b x y).isSome then skipStringBody rest
        else badUnit (a :: b :: x :: y :: rest)
      | e :: rest =>
        if (shortEscape? e).isSome then skipStringBody rest else badEscape (e :: rest)
      | [] => badEscape []
    else if c.toNat < 0x20 then Reader.flawAt .controlCharacter (c :: rest) 1
    else skipStringBody rest

end CachedCalls.Json

namespace CachedCalls.Reader

/-- A string whose opening quote comes next. -/
def quoted : Reader String := do
  advance
  Json.stringBody []

/-- Pass over a string whose opening quote comes next. -/
def skipQuoted : Reader Unit := do
  advance
  Json.skipStringBody

end CachedCalls.Reader
