/-
# Reading JSON text

Arrays and objects are read one element or member at a time, so that a reader of typed data can look
at each as it comes. The loops are bounded by the text in front of them: every round takes a
character, so the bound is used up only when the text is.
-/

import CachedCalls.Json.Numeral
import CachedCalls.Json.Quoted

namespace CachedCalls

namespace Reader

/-- Whether an array has another element. The comma in front of it is passed. -/
def hasElement (first : Bool) : Reader Bool := do
  match ← peek with
  | none => flaw .endInList
  | some c =>
    if c = ']' then return false
    else if first then return true
    else if c = ',' then
      advance
      match ← peek with
      | none => flaw .endInValue
      | some c => if c = ']' then flaw .trailingComma else return true
    else flaw .noListEnd

/-- The name of the next member of an object, if there is another one. -/
def nextKey (first : Bool) : Reader (Option String) := do
  match ← peek with
  | none => flaw .endInObject
  | some c =>
    if c = '\x7d' then return none
    else if first then
      if c = '"' then return some (← quoted) else flaw .keyNotString
    else if c = ',' then
      advance
      match ← peek with
      | none => flaw .endInValue
      | some c =>
        if c = '"' then return some (← quoted)
        else if c = '\x7d' then flaw .trailingComma
        else flaw .keyNotString
    else flaw .noObjectEnd

/-- Pass the colon between the name and the value of a member. -/
def colon : Reader Unit := do
  match ← peek with
  | none => flaw .endInObject
  | some c => if c = ':' then advance else flaw .noColon

/-- Pass the closing bracket of an array, which must have no more elements. -/
def closeList : Reader Unit := do
  match ← peek with
  | none => flaw .endInList
  | some c =>
    if c = ']' then advance
    else if c = ',' then
      advance
      if (← peek) = some ']' then flaw .trailingComma else flaw .trailingText
    else flaw .trailingText

/-- Pass the closing brace of an object. -/
def closeObject : Reader Unit := do
  match ← peek with
  | none => flaw .endInObject
  | some c =>
    if c = '\x7d' then advance
    else if c = ',' then flaw .trailingComma
    else flaw .trailingText

/-- Work through the elements of an array, at most as many as `bound` has characters. -/
def foldElements {σ : Type} (step : σ → Reader σ) :
    (bound : List Char) → (first : Bool) → σ → Reader σ
  | [], _, _ => flaw .endInList
  | _ :: bound, first, state => do
    if ← hasElement first then foldElements step bound false (← step state) else return state

/-- Work through the members of an object, at most as many as `bound` has characters. The step is
given the name of a member and begins in front of the colon. -/
def foldMembers {σ : Type} (step : σ → String → Reader σ) :
    (bound : List Char) → (first : Bool) → σ → Reader σ
  | [], _, _ => flaw .endInObject
  | _ :: bound, first, state => do
    match ← nextKey first with
    | some name => foldMembers step bound false (← step state name)
    | none => return state

/-- Work through an array from its opening to its closing bracket. -/
def listOf {σ : Type} (step : σ → Reader σ) (start : σ) : Reader σ := do
  advance
  let result ← foldElements step (← get) true start
  closeList
  return result

/-- Work through an object from its opening to its closing brace. -/
def objectOf {σ : Type} (step : σ → String → Reader σ) (start : σ) : Reader σ := do
  advance
  let result ← foldMembers step (← get) true start
  closeObject
  return result

/-- A value that is neither an array nor an object. -/
def scalar : Reader Json := do
  match ← peek with
  | none => flaw .endInValue
  | some c =>
    if c = '"' then return .string (← quoted)
    else if c = 'n' then
      word ['n', 'u', 'l', 'l']
      return .null
    else if c = 't' then
      word ['t', 'r', 'u', 'e']
      return .bool true
    else if c = 'f' then
      word ['f', 'a', 'l', 's', 'e']
      return .bool false
    else if c = '-' ∨ c.isDigit then return .number (← number)
    else flaw .noValue

/-- A value in which at most `depth` arrays and objects are open at once. -/
def value : (depth : Nat) → Reader Json
  | 0 => do
    match ← peek with
    | some '[' | some '\x7b' => flaw .tooDeep
    | _ => scalar
  | depth + 1 => do
    match ← peek with
    | some '[' =>
      let elements ← listOf (fun done => return (← value depth) :: done) []
      return .array elements.reverse
    | some '\x7b' =>
      let members ← objectOf (fun done name => do
        colon
        return (name, ← value depth) :: done) []
      return .object members.reverse
    | _ => scalar

/-- How many arrays and objects may be open at once. -/
def depthLimit : Nat :=
  127

end Reader

/-- Read a text that holds one value. -/
def Json.parse (text : String) : Except LocatedFault Json :=
  (Reader.value Reader.depthLimit).run text

end CachedCalls
