/-
# Decimal text of binary fractions

A number with a fraction or an exponent is held in binary with 53 significant bits. Reading scales
the digits by a power of ten in binary arithmetic; writing looks for the fewest decimal digits that
still single out the binary value, by exact arithmetic on integers.
-/

namespace CachedCalls.Decimal

/-- The largest number of ten-fold steps that are taken at once. -/
def stepLimit : Nat :=
  308

/-- The digits `significand` scaled by a power of ten. There is no answer when the result would
leave the range of binary fractions. A small exponent is worked off in steps; two steps already
bring any significand to zero, so `fuel` need not exceed three. -/
def scale? (significand : Float) (exponent : Int) : (fuel : Nat) → Option Float
  | 0 => some significand
  | fuel + 1 =>
    if exponent.natAbs ≤ stepLimit then
      let power := Float.ofScientific 1 false exponent.natAbs
      if exponent < 0 then some (significand / power)
      else if (significand * power).isInf then none
      else some (significand * power)
    else if significand == 0 then some significand
    else if 0 < exponent then none
    else scale? (significand / Float.ofScientific 1 false stepLimit) (exponent + stepLimit) fuel

/-- The binary fraction that digits and a power of ten stand for. -/
def ofDigits? (negative : Bool) (significand : Nat) (exponent : Int) : Option Float :=
  (scale? significand.toUInt64.toFloat exponent 3).map fun value =>
    if negative then -value else value

/-- A positive binary fraction as an integer mantissa and a power of two. -/
structure Binary where
  mantissa : Nat
  exponent : Int

/-- The leading bit of a mantissa, which is not stored. -/
def hiddenBit : Nat :=
  0x10000000000000

/-- The mantissa and exponent of the magnitude of a finite value. -/
def Binary.ofFloat (value : Float) : Binary :=
  let bits : Nat := value.toBits.toNat
  let fraction : Nat := bits % hiddenBit
  let biased : Nat := bits / hiddenBit % 0x800
  if biased = 0 then ⟨fraction, -1074⟩ else ⟨hiddenBit + fraction, (biased : Int) - 1075⟩

/-- The multiple of `10 ^ power` that lies closest to a binary fraction, if it, or the neighbour on
the other side, is rounded back to that fraction. Of two that are equally close the even one is
taken. Quarters of the last binary place are counted, in which the neighbouring fractions are four
units away, or two below a power of two. -/
def Binary.nearest? (value : Binary) (power : Int) : Option Nat :=
  let quarter := value.exponent - 2
  let scaleUp := Nat.pow 2 quarter.toNat * Nat.pow 10 (-power).toNat
  let scaleDown := Nat.pow 2 (-quarter).toNat * Nat.pow 10 power.toNat
  let center := 4 * value.mantissa * scaleUp
  let narrow := value.mantissa = hiddenBit ∧ -1074 < value.exponent
  let low := (4 * value.mantissa - (if narrow then 1 else 2)) * scaleUp
  let high := (4 * value.mantissa + 2) * scaleUp
  let inside (multiple : Nat) : Bool :=
    let point := multiple * scaleDown
    if value.mantissa % 2 = 0 then decide (low ≤ point) && decide (point ≤ high)
    else decide (low < point) && decide (point < high)
  let below := center / scaleDown
  let above := below + 1
  let down := center - below * scaleDown
  let up := above * scaleDown - center
  if inside below ∧ inside above then
    some (if up < down ∨ (up = down ∧ above % 2 = 0) then above else below)
  else if inside below then some below
  else if inside above then some above
  else none

/-- The fewest digits that single out a positive binary fraction, with the power of ten of the last
one. Coarser grids come first, and no fraction needs a grid finer than the last. -/
def Binary.shortest (value : Binary) : Nat × Int :=
  ((List.range 660).findSome? fun (step : Nat) =>
    let power : Int := 310 - step
    (value.nearest? power).map fun digits => (digits, power)).getD (0, 0)

/-- Zeros, as many as asked for. -/
def zeros (count : Nat) : List Char :=
  List.replicate count '0'

/-- An exponent with its sign, which is always written. -/
def signed (exponent : Int) : List Char :=
  (if exponent < 0 then '-' else '+') :: Nat.toDigits 10 exponent.natAbs

/-- Digits with a decimal point: without an exponent as long as the point stays within sixteen
places in front and five behind, and always with a digit on either side of the point. -/
def layout (digits : List Char) (power : Int) : List Char :=
  let point := digits.length + power
  if 0 ≤ power ∧ point ≤ 16 then digits ++ zeros power.toNat ++ ['.', '0']
  else if 0 < point ∧ point ≤ 16 then
    digits.take point.toNat ++ '.' :: digits.drop point.toNat
  else if -5 < point ∧ point ≤ 0 then '0' :: '.' :: zeros (-point).toNat ++ digits
  else
    let exponent := signed (point - 1)
    match digits with
    | [] => []
    | [digit] => digit :: 'e' :: exponent
    | digit :: more => digit :: '.' :: more ++ 'e' :: exponent

/-- Decimal text of a finite binary fraction. -/
def display (value : Float) : String :=
  let magnitude :=
    if value == 0 then ['0', '.', '0']
    else
      let (digits, power) := (Binary.ofFloat value).shortest
      layout (Nat.toDigits 10 digits) power
  let negative := value.toBits.toNat / 0x8000000000000000 = 1
  String.ofList (if negative then '-' :: magnitude else magnitude)

end CachedCalls.Decimal
