/-
# Writing JSON text

Values are laid out with one member or element on a line, indented by two blanks for each level.
Only quotes, backslashes and control characters are escaped.
-/

import CachedCalls.Json.Decimal
import CachedCalls.Json.Value
import CachedCalls.Text.Hex

namespace CachedCalls.Json

/-- A character as it stands inside a string. -/
def escapeChar (c : Char) : List Char :=
  if c = '"' then ['\\', '"']
  else if c = '\\' then ['\\', '\\']
  else if c = '\x08' then ['\\', 'b']
  else if c = '\x0c' then ['\\', 'f']
  else if c = '\n' then ['\\', 'n']
  else if c = '\r' then ['\\', 'r']
  else if c = '\t' then ['\\', 't']
  else if c.toNat < 0x20 then
    ['\\', 'u', '0', '0', Text.hexChar (c.toNat / 16), Text.hexChar (c.toNat % 16)]
  else [c]

/-- A string between quotes. -/
def renderString (text : String) : List Char :=
  '"' :: text.toList.flatMap escapeChar ++ ['"']

/-- A number in decimal. -/
def renderNumber : Number → List Char
  | .whole value =>
    if value < 0 then '-' :: Nat.toDigits 10 value.natAbs else Nat.toDigits 10 value.natAbs
  | .fraction value => (Decimal.display value).toList

/-- A line break and the indentation of the given level. -/
def newline (level : Nat) : List Char :=
  '\n' :: List.replicate (2 * level) ' '

mutual

/-- A value whose first line is already indented to the given level. -/
def render (level : Nat) : Json → List Char
  | null => "null".toList
  | bool true => "true".toList
  | bool false => "false".toList
  | number value => renderNumber value
  | string value => renderString value
  | array [] => ['[', ']']
  | array (first :: rest) =>
    '[' :: newline (level + 1) ++ render (level + 1) first ++ renderElements (level + 1) rest ++
      newline level ++ [']']
  | object [] => ['\x7b', '\x7d']
  | object ((name, first) :: rest) =>
    '\x7b' :: newline (level + 1) ++ renderString name ++ [':', ' '] ++ render (level + 1) first ++
      renderMembers (level + 1) rest ++ newline level ++ ['\x7d']

/-- Further elements of an array, each on its own line behind a comma. -/
def renderElements (level : Nat) : List Json → List Char
  | [] => []
  | element :: rest =>
    ',' :: newline level ++ render level element ++ renderElements level rest

/-- Further members of an object, each on its own line behind a comma. -/
def renderMembers (level : Nat) : List (String × Json) → List Char
  | [] => []
  | (name, value) :: rest =>
    ',' :: newline level ++ renderString name ++ [':', ' '] ++ render level value ++
      renderMembers level rest

end

/-- A value as a text of indented lines. -/
def pretty (value : Json) : String :=
  String.ofList (render 0 value)

/-- A natural number as a value. -/
def ofNat (n : Nat) : Json :=
  .number (.whole n)

end CachedCalls.Json
