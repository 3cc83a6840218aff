/-
# Typed data from values

A decoder reads data from a value that is held already. Such data is read without a text at hand, so
its faults have no place.
-/

import CachedCalls.Json.Fault

namespace CachedCalls

/-- How a record is read by readers or decoders of kind `μ`. A record is written as an object, with
its fields in any order, or as an array of its fields in order. -/
structure RecordShape (μ : Type → Type) (α : Type) where
  /-- What messages call the record. -/
  title : String
  /-- The fields in the order in which an array gives them. -/
  fields : List String
  /-- The record before any field is read. -/
  blank : α
  /-- The record with the field of the given name read. -/
  assign : α → String → μ α

/-- A reading of a value as typed data. -/
abbrev Decoder (α : Type) := ReaderT Json (Except DecodeFault) α

namespace Decoder

/-- A string. -/
def text : Decoder String
  | .string value => .ok value
  | other => .error (.wrongType other "a string")

/-- A natural number below `bound`; `expected` names the range. -/
def natural (bound : Nat) (expected : String) : Decoder Nat
  | .number (.whole value) =>
    if 0 ≤ value ∧ value < bound then .ok value.toNat else .error (.wrongValue value expected)
  | other => .error (.wrongType other expected)

/-- A byte offset. -/
def offset : Decoder Nat :=
  natural UInt64.size "usize"

/-- A list of data of one kind. -/
def list {α : Type} (element : Decoder α) : Decoder (List α)
  | .array elements => elements.mapM element
  | other => .error (.wrongType other "a sequence")

/-- Read the members of an object into a record; `given` names the fields read so far. Other members
do not count. -/
def assignMembers {α : Type} (shape : RecordShape Decoder α) (given : List String) (record : α) :
    List (String × Json) → Except DecodeFault α
  | [] =>
    match shape.fields.find? (!given.contains ·) with
    | some name => .error (.missingField name)
    | none => .ok record
  | (name, value) :: rest => do
    if !shape.fields.contains name then assignMembers shape given record rest
    else if given.contains name then throw (.duplicateField name)
    else assignMembers shape (name :: given) (← shape.assign record name value) rest

/-- Read the elements of an array into the fields of a record, as far as both reach. -/
def assignElements {α : Type} (shape : RecordShape Decoder α) (record : α)
    (entries : List (String × Json)) : Except DecodeFault α :=
  entries.foldlM (fun record entry => shape.assign record entry.1 entry.2) record

/-- A record, all of whose fields must be given. -/
def record {α : Type} (shape : RecordShape Decoder α) : Decoder α
  | .object members => assignMembers shape [] shape.blank members
  | .array elements => do
    let record ← assignElements shape shape.blank (shape.fields.zip elements)
    if elements.length < shape.fields.length then
      throw (.wrongLength elements.length s!"{shape.title} with {shape.fields.length} elements")
    if shape.fields.length < elements.length then
      throw (.wrongLength elements.length s!"{shape.fields.length} elements in sequence")
    return record
  | other => .error (.wrongType other shape.title)

end Decoder

end CachedCalls
