/-
# Edits as JSON

An edit is an object whose `kind` selects the other fields. Because the kind may come behind them,
they are kept as values until the edit has been read to its end.
-/

import CachedCalls.Edit
import CachedCalls.Json.Printer
import CachedCalls.Json.Record

namespace CachedCalls

namespace Span

/-- A span as a JSON value. -/
def toJson (span : Span) : Json :=
  .object [("start", .ofNat span.start), ("end", .ofNat span.stop)]

/-- How a span is read. -/
def shape : RecordShape Decoder Span where
  title := "struct SourceSpan"
  fields := ["start", "end"]
  blank := ⟨0, 0⟩
  assign span name := do
    if name = "start" then return { span with start := ← Decoder.offset }
    else return { span with stop := ← Decoder.offset }

/-- Read a span. -/
def decode : Decoder Span :=
  Decoder.record shape

end Span

namespace Edit

/-- An edit as a JSON value. -/
def toJson : Edit → Json
  | replace span text =>
    .object [("kind", .string "replace"), ("span", span.toJson), ("text", .string text)]
  | insertBefore offset text =>
    .object [("kind", .string "insert_before"), ("offset", .ofNat offset), ("text", .string text)]
  | insertAfter offset text =>
    .object [("kind", .string "insert_after"), ("offset", .ofNat offset), ("text", .string text)]

/-- The kinds of edits. -/
inductive Kind where
  | replace
  | insertBefore
  | insertAfter
deriving DecidableEq, Repr

namespace Kind

/-- The names of the kinds. -/
def names : List String :=
  ["replace", "insert_before", "insert_after"]

/-- The kind with the given name. -/
def ofName (name : String) : Except DecodeFault Kind :=
  match name with
  | "replace" => .ok .replace
  | "insert_before" => .ok .insertBefore
  | "insert_after" => .ok .insertAfter
  | other => .error (.unknownVariant other names)

/-- What messages expect where a kind should stand. -/
def title : String :=
  "variant identifier"

/-- Read a kind from a value. -/
def decode : Decoder Kind
  | .string name => ofName name
  | other => .error (.wrongType other title)

/-- Read a kind from text. -/
def reader : Reader Kind := do
  if (← Reader.peek) = some '"' then
    match ofName (← Reader.quoted) with
    | .ok kind => return kind
    | .error fault => Reader.fail fault
  else Reader.mismatch title

/-- What messages call the record of a kind. -/
def recordTitle : Kind → String
  | replace => "struct variant TextEdit::Replace"
  | insertBefore => "struct variant TextEdit::InsertBefore"
  | insertAfter => "struct variant TextEdit::InsertAfter"

end Kind

/-- How the position and the text of an edit are read, given how the position is called and read. -/
def shape {α : Type} (kind : Kind) (place : String) (decode : Decoder α) (blank : α) :
    RecordShape Decoder (α × String) where
  title := kind.recordTitle
  fields := [place, "text"]
  blank := (blank, "")
  assign parts name := do
    if name = place then return (← decode, parts.2) else return (parts.1, ← Decoder.text)

/-- Read the fields of an edit of a known kind. -/
def decodeAs (kind : Kind) : Decoder Edit := do
  match kind with
  | .replace =>
    let (span, text) ← Decoder.record (shape kind "span" Span.decode ⟨0, 0⟩)
    return .replace span text
  | .insertBefore =>
    let (offset, text) ← Decoder.record (shape kind "offset" Decoder.offset 0)
    return .insertBefore offset text
  | .insertAfter =>
    let (offset, text) ← Decoder.record (shape kind "offset" Decoder.offset 0)
    return .insertAfter offset text

/-- What messages call an edit. -/
def title : String :=
  "internally tagged enum TextEdit"

/-- The kind given by an object's members; `found` is the one given so far. -/
def kindOf (found : Option Kind) : List (String × Json) → Except DecodeFault Kind
  | [] =>
    match found with
    | some kind => .ok kind
    | none => .error (.missingField "kind")
  | (name, value) :: rest => do
    if name ≠ "kind" then kindOf found rest
    else if found.isSome then throw (.duplicateField "kind")
    else kindOf (some (← Kind.decode value)) rest

/-- Read an edit from a value. -/
def decode : Decoder Edit
  | .object members => do
    let kind ← kindOf none members
    decodeAs kind (.object (members.filter fun entry => entry.1 ≠ "kind"))
  | .array [] => .error (.missingField "kind")
  | .array (kind :: elements) => do decodeAs (← Kind.decode kind) (.array elements)
  | other => .error (.wrongType other title)

/-- Read one member of an edit: its kind, or a value that is kept for later, last first. -/
def readMember (depth : Nat) (state : Option Kind × List (String × Json)) (name : String) :
    Reader (Option Kind × List (String × Json)) := do
  if name ≠ "kind" then
    Reader.colon
    return (state.1, (name, ← Reader.value depth) :: state.2)
  else if state.1.isSome then Reader.failWhole '\x7d' (.duplicateField "kind")
  else
    Reader.colon
    return (some (← Kind.reader), state.2)

/-- Read an edit up to its end: its kind and a value with its other fields, in which at most `depth`
arrays and objects are open at once. -/
def readParts (depth : Nat) : Reader (Kind × Json) := do
  match ← Reader.peek with
  | some '\x7b' =>
    Reader.advance
    let (kind, members) ← Reader.foldMembers (readMember depth) (← get) true (none, [])
    match kind with
    | none => Reader.failWhole '\x7d' (.missingField "kind")
    | some kind =>
      Reader.closeObject
      return (kind, .object members.reverse)
  | some '[' =>
    Reader.advance
    if ← Reader.hasElement true then
      let kind ← Kind.reader
      let elements ← Reader.foldElements (fun done => return (← Reader.value depth) :: done)
        (← get) false []
      Reader.closeList
      return (kind, .array elements.reverse)
    else Reader.failWhole ']' (.missingField "kind")
  | _ => Reader.mismatch title

/-- Read an edit from text. -/
def reader (depth : Nat) : Reader Edit := do
  let (kind, fields) ← readParts depth
  match decodeAs kind fields with
  | .ok edit => return edit
  | .error fault => Reader.fail fault

/-- Read a list of edits from JSON text. The list and the edit are open around the values that an
edit keeps. -/
def readList (text : String) : Except LocatedFault (List Edit) :=
  (Reader.list (reader (Reader.depthLimit - 2))).run text

end Edit

end CachedCalls
