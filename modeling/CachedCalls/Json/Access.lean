/-
# Taking JSON values apart

Accessors for documents whose wrong form needs no explanation: a value that is not as expected
simply has no answer.
-/

import CachedCalls.Json.Value

namespace CachedCalls.Json

/-- The first member of an object with the given name. -/
def field? (value : Json) (name : String) : Option Json :=
  match value with
  | object members => members.lookup name
  | _ => none

/-- The text of a string. -/
def text? : Json → Option String
  | string text => some text
  | _ => none

/-- The value of a natural number. -/
def nat? : Json → Option Nat
  | number (.whole value) => if value < 0 then none else some value.toNat
  | _ => none

/-- The elements of an array. -/
def elements? : Json → Option (List Json)
  | array elements => some elements
  | _ => none

/-- A value that may be left out or null. -/
def optional? {α : Type} (decode : Json → Option α) : Option Json → Option (Option α)
  | none | some null => some none
  | some value => (decode value).map some

/-- The text of a member. -/
def textField? (value : Json) (name : String) : Option String :=
  (value.field? name).bind text?

/-- The natural number of a member. -/
def natField? (value : Json) (name : String) : Option Nat :=
  (value.field? name).bind nat?

/-- The elements of a member, each taken apart. -/
def listField? {α : Type} (value : Json) (name : String) (decode : Json → Option α) :
    Option (List α) := do
  (← (← value.field? name).elements?).mapM decode

end CachedCalls.Json
