/-
# Why a text cannot be read

A text may fail to be JSON, or it may be JSON that does not hold the expected data. In both cases
reading stops at one place, which is given by its line and by the number of bytes on that line.
-/

import CachedCalls.Json.Decimal
import CachedCalls.Json.Value
import CachedCalls.Text.Printable

namespace CachedCalls

namespace Json

/-- Why a text is not JSON. -/
inductive Flaw where
  | endInList
  | endInObject
  | endInString
  | endInValue
  | noColon
  | noListEnd
  | noObjectEnd
  | noWord
  | noValue
  | badEscape
  | badNumber
  | outOfRange
  | controlCharacter
  | keyNotString
  | loneSurrogate
  | brokenPair
  | trailingComma
  | trailingText
  | tooDeep
deriving DecidableEq, Repr

namespace Flaw

/-- The sentence shown to the user. -/
def message : Flaw → String
  | endInList => "EOF while parsing a list"
  | endInObject => "EOF while parsing an object"
  | endInString => "EOF while parsing a string"
  | endInValue => "EOF while parsing a value"
  | noColon => "expected `:`"
  | noListEnd => "expected `,` or `]`"
  | noObjectEnd => "expected `,` or `\x7d`"
  | noWord => "expected ident"
  | noValue => "expected value"
  | badEscape => "invalid escape"
  | badNumber => "invalid number"
  | outOfRange => "number out of range"
  | controlCharacter => "control character (\\u0000-\\u001F) found while parsing a string"
  | keyNotString => "key must be a string"
  | loneSurrogate => "lone leading surrogate in hex escape"
  | brokenPair => "unexpected end of hex escape"
  | trailingComma => "trailing comma"
  | trailingText => "trailing characters"
  | tooDeep => "recursion limit exceeded"

end Flaw

/-- What a value is called in a message. -/
def describe : Json → String
  | null => "null"
  | bool value => s!"boolean `{value}`"
  | number (.whole value) => s!"integer `{value}`"
  | number (.fraction value) => s!"floating point `{Decimal.display value}`"
  | string value => s!"string {Text.quoted value}"
  | array _ => "sequence"
  | object _ => "map"

end Json

/-- Why a text does not hold the expected data. -/
inductive DecodeFault where
  /-- The text is not JSON, or goes on where the data ends. -/
  | malformed (flaw : Json.Flaw)
  /-- Of an array or an object only the kind counts, so `found` may be an empty one. -/
  | wrongType (found : Json) (expected : String)
  | wrongValue (found : Int) (expected : String)
  | wrongLength (found : Nat) (expected : String)
  | missingField (name : String)
  | duplicateField (name : String)
  | unknownField (name : String) (known : List String)
  | unknownVariant (name : String) (known : List String)

namespace DecodeFault

/-- Names between back quotes with commas between them. -/
def listNames (names : List String) : String :=
  ", ".intercalate (names.map fun name => s!"`{name}`")

/-- The sentence shown to the user. -/
def message : DecodeFault → String
  | malformed flaw => flaw.message
  | wrongType found expected => s!"invalid type: {found.describe}, expected {expected}"
  | wrongValue found expected => s!"invalid value: integer `{found}`, expected {expected}"
  | wrongLength found expected => s!"invalid length {found}, expected {expected}"
  | missingField name => s!"missing field `{name}`"
  | duplicateField name => s!"duplicate field `{name}`"
  | unknownField name known => s!"unknown field `{name}`, expected one of {listNames known}"
  | unknownVariant name known => s!"unknown variant `{name}`, expected one of {listNames known}"

end DecodeFault

/-- A place in a text. -/
structure Position where
  /-- The line, counted from one. -/
  line : Nat
  /-- The number of bytes on the line in front of the place. -/
  column : Nat
deriving DecidableEq, Repr

namespace Position

/-- The beginning of a text. -/
def start : Position :=
  ⟨1, 0⟩

/-- The place that lies the given number of bytes further on in the text. -/
def advance (position : Position) (count : Nat) : List Char → Position
  | [] => position
  | c :: cs =>
    if count = 0 then position
    else if c = '\n' then advance ⟨position.line + 1, 0⟩ (count - 1) cs
    else
      advance ⟨position.line, position.column + min count c.utf8Size⟩ (count - c.utf8Size) cs

end Position

/-- A fault and the place in the text where it was found. -/
structure LocatedFault where
  fault : DecodeFault
  position : Position

namespace LocatedFault

/-- The sentence shown to the user. -/
def message (located : LocatedFault) : String :=
  s!"{located.fault.message} at line {located.position.line} column {located.position.column}"

end LocatedFault

end CachedCalls
