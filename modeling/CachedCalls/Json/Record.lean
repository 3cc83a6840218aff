/-
# Typed data from text

Typed data is read while the text is read, so the first mismatch in the order of the text decides,
also if the text breaks off behind it. For each kind of record it is fixed whether fields may be left
out and whether members are borne that are none of its fields.
-/

import CachedCalls.Json.Decode
import CachedCalls.Json.Skip

namespace CachedCalls

/-- How strictly the members of a record are taken. -/
inductive Strictness where
  /-- All fields must be given; other members are passed over. -/
  | complete
  /-- Fields may be left out; other members are refused. -/
  | closed
deriving DecidableEq, Repr

namespace Reader

/-- Stop because the value in front is not of the expected type. Of an array or an object only the
opening is looked at. -/
def mismatch {α : Type} (expected : String) : Reader α := do
  match ← peek with
  | some '[' => fail (.wrongType (.array []) expected)
  | some '\x7b' => fail (.wrongType (.object []) expected)
  | _ => fail (.wrongType (← scalar) expected)

/-- A string. -/
def text : Reader String := do
  if (← peek) = some '"' then quoted else mismatch "a string"

/-- A string or nothing. -/
def optionalText : Reader (Option String) := do
  if (← peek) = some 'n' then
    word ['n', 'u', 'l', 'l']
    return none
  else return some (← text)

/-- A natural number below `bound`; `expected` names the range. -/
def natural (bound : Nat) (expected : String) : Reader Nat := do
  if (← peek).any fun c => c == '-' || c.isDigit then
    match Decoder.natural bound expected (.number (← number)) with
    | .ok n => return n
    | .error fault => fail fault
  else mismatch expected

/-- A line number. -/
def line : Reader Nat :=
  natural UInt32.size "u32"

/-- A list of data of one kind. -/
def list {α : Type} (element : Reader α) : Reader (List α) := do
  if (← peek) = some '[' then
    let elements ← listOf (fun done => return (← element) :: done) []
    return elements.reverse
  else mismatch "a sequence"

/-- Read one member of an object into a record; the first part of the state names the fields read so
far. -/
def assignMember {α : Type} (shape : RecordShape Reader α) (strictness : Strictness)
    (state : List String × α) (name : String) : Reader (List String × α) := do
  if shape.fields.contains name then
    if state.1.contains name then failWhole '\x7d' (.duplicateField name)
    else
      colon
      return (name :: state.1, ← shape.assign state.2 name)
  else
    match strictness with
    | .closed => failWhole '\x7d' (.unknownField name shape.fields)
    | .complete =>
      colon
      skipValue
      return state

/-- Read a record from the members of an object. -/
def recordMembers {α : Type} (shape : RecordShape Reader α) (strictness : Strictness) :
    Reader α := do
  advance
  let (given, record) ← foldMembers (assignMember shape strictness) (← get) true ([], shape.blank)
  match strictness, shape.fields.find? (!given.contains ·) with
  | .complete, some name => failWhole '\x7d' (.missingField name)
  | _, _ =>
    closeObject
    return record

/-- Read the elements of an array into the fields of a record; `given` counts those read so far. -/
def assignElements {α : Type} (shape : RecordShape Reader α) (strictness : Strictness)
    (given : Nat) (record : α) : (fields : List String) → Reader α
  | [] => return record
  | name :: fields => do
    if ← hasElement (given == 0) then
      assignElements shape strictness (given + 1) (← shape.assign record name) fields
    else
      match strictness with
      | .closed => return record
      | .complete =>
        failWhole ']' (.wrongLength given s!"{shape.title} with {shape.fields.length} elements")

/-- Read a record from an object or an array. -/
def record {α : Type} (shape : RecordShape Reader α) (strictness : Strictness) : Reader α := do
  match ← peek with
  | some '\x7b' => recordMembers shape strictness
  | some '[' =>
    advance
    let record ← assignElements shape strictness 0 shape.blank shape.fields
    closeList
    return record
  | _ => mismatch shape.title

end Reader

end CachedCalls
