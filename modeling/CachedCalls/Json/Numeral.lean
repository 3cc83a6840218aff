/-
# Numbers in JSON text

A numeral is the text of a number taken apart. It says everything about the number, so whether the
number can be held is asked only of readers that keep it.
-/

import CachedCalls.Json.Reader

namespace CachedCalls.Json

/-- The parts of a number's text. -/
structure Numeral where
  negative : Bool
  /-- The digits in front of the point. -/
  whole : List Char
  /-- The digits behind the point. -/
  fraction : List Char
  /-- The exponent, if there is one: whether it is negative, and its digits. -/
  exponent : Option (Bool × List Char)

/-- The value of a decimal digit. -/
def digitValue (c : Char) : Nat :=
  c.toNat - '0'.toNat

/-- The value of decimal digits. -/
def digitsValue (digits : List Char) : Nat :=
  digits.foldl (fun n d => n * 10 + digitValue d) 0

/-- The largest exponent that is told apart from larger ones. -/
def exponentLimit : Nat :=
  2147483647

/-- What follows the digit at which a number outgrows the limit of exponents. -/
def outgrown? (value : Nat) : List Char → Option (List Char)
  | [] => none
  | digit :: digits =>
    let next := value * 10 + digitValue digit
    if exponentLimit < next then some digits else outgrown? next digits

/-- Take digits in front into a number for as long as it fits 64 bits. Returns the number and how
many digits it took. -/
def gather (significand : Nat) : List Char → Nat × Nat
  | [] => (significand, 0)
  | digit :: digits =>
    let next := significand * 10 + digitValue digit
    if next < UInt64.size then
      let (significand, taken) := gather next digits
      (significand, taken + 1)
    else (significand, 0)

namespace Numeral

/-- The value of the exponent. -/
def power (numeral : Numeral) : Int :=
  match numeral.exponent with
  | some (true, digits) => -(digitsValue digits : Int)
  | some (false, digits) => digitsValue digits
  | none => 0

/-- The number that a numeral stands for, if it can be held. -/
def number? (numeral : Numeral) : Option Number :=
  let (significand, taken) := gather 0 numeral.whole
  let skipped := numeral.whole.length - taken
  if numeral.fraction.isEmpty ∧ numeral.exponent.isNone ∧ skipped = 0 then
    if !numeral.negative then some (.whole significand)
    else if 0 < significand ∧ 2 * significand ≤ UInt64.size then
      some (.whole (-(significand : Int)))
    else (Decimal.ofDigits? true significand 0).map .fraction
  else
    let (significand, places) := gather significand numeral.fraction
    let power := numeral.power + skipped - places
    (Decimal.ofDigits? numeral.negative significand power).map .fraction

/-- The digits of the exponent that need not be read to see that the number cannot be held. -/
def unread (numeral : Numeral) : List Char :=
  (numeral.exponent.bind fun exponent => outgrown? 0 exponent.2).getD []

end Numeral

end CachedCalls.Json

namespace CachedCalls.Reader

open Json (Numeral)

/-- The digits in front. -/
def digits : Reader (List Char) := fun cs =>
  .ok (cs.takeWhile Char.isDigit, cs.dropWhile Char.isDigit)

/-- Stop where a digit should stand. -/
def noDigit {α : Type} : Reader α := fun cs =>
  if cs.isEmpty then flawAt .endInValue [] 0 else flawAt .badNumber cs 1

/-- The digits in front, at least one. -/
def someDigits : Reader (List Char) := do
  match ← digits with
  | [] => noDigit
  | found => return found

/-- Pass one of the given characters if it comes next, and say which. -/
def oneOf? (choices : List Char) : Reader (Option Char) := fun cs =>
  match cs with
  | [] => .ok (none, [])
  | c :: rest => if choices.contains c then .ok (some c, rest) else .ok (none, c :: rest)

/-- Digits in front of a point. They begin with zero only if they are zero. -/
def wholeDigits : Reader (List Char)
  | '0' :: c :: rest =>
    if c.isDigit then flawAt .badNumber (c :: rest) 1 else .ok (['0'], c :: rest)
  | cs => someDigits cs

/-- The digits behind a point, if there is one. A point needs a digit behind it. -/
def fractionDigits : Reader (List Char) := do
  match ← oneOf? ['.'] with
  | some _ => someDigits
  | none => return []

/-- The sign and the digits of an exponent, if there is one. -/
def exponentPart : Reader (Option (Bool × List Char)) := do
  match ← oneOf? ['e', 'E'] with
  | none => return none
  | some _ =>
    let sign ← oneOf? ['+', '-']
    return some (sign == some '-', ← someDigits)

/-- A numeral in front. -/
def numeral : Reader Numeral := do
  let sign ← oneOf? ['-']
  return ⟨sign.isSome, ← wholeDigits, ← fractionDigits, ← exponentPart⟩

/-- A number that can be held. -/
def number : Reader Json.Number := fun cs => do
  let (numeral, rest) ← numeral cs
  match numeral.number? with
  | some number => return (number, rest)
  | none => flawAt .outOfRange (numeral.unread ++ rest) 0

end CachedCalls.Reader
