/-
# Edits of one source text

Every edit refers to the same, unmodified text. A batch is checked as a whole before anything is
applied, and it is applied from the last position to the first, so that applying one edit moves no
position a pending edit still refers to.
-/

import CachedCalls.Span

namespace CachedCalls

/-- A change at a position of the source text. -/
inductive Edit where
  /-- Put `text` in place of the bytes under `span`. -/
  | replace (span : Span) (text : String)
  /-- Put `text` at `offset`, as part of what follows. -/
  | insertBefore (offset : Nat) (text : String)
  /-- Put `text` at `offset`, as part of what precedes. -/
  | insertAfter (offset : Nat) (text : String)
deriving DecidableEq, Repr

/-- Why a batch of edits cannot be applied. -/
inductive EditFault where
  /-- The span is backwards or leaves the text of `size` bytes. -/
  | outOfBounds (span : Span) (size : Nat)
  /-- The offset lies inside a character. -/
  | splitsCharacter (offset : Nat)
  /-- The edit at `second` touches bytes that the replacement of `first` takes away. -/
  | conflict (first second : Span)
deriving DecidableEq, Repr

namespace EditFault

/-- The sentence shown to the user. -/
def message : EditFault → String
  | outOfBounds span size => s!"edit {span.display} is outside the {size}-byte source"
  | splitsCharacter offset => s!"edit boundary at byte {offset} splits a UTF-8 character"
  | conflict first second => s!"edit {second.display} conflicts with edit {first.display}"

end EditFault

namespace Edit

/-- The bytes an edit takes away; an insertion takes none. -/
def span : Edit → Span
  | replace span _ => span
  | insertBefore offset _ | insertAfter offset _ => Span.empty offset

/-- The text an edit puts in. -/
def text : Edit → String
  | replace _ text | insertBefore _ text | insertAfter _ text => text

/-- Whether an edit takes the place of existing bytes, even of none. -/
def isReplace : Edit → Bool
  | replace .. => true
  | insertBefore .. | insertAfter .. => false

/-- Order of edits that start at one offset: what belongs to the preceding text comes first and
what takes the place of the following text comes last. -/
def rank : Edit → Nat
  | insertAfter .. => 0
  | insertBefore .. => 1
  | replace .. => 2

/-- Whether `a` may stand in front of `b`: by start, then by rank. -/
def precedes (a b : Edit) : Bool :=
  decide (a.span.start < b.span.start) ||
    (decide (a.span.start = b.span.start) && decide (a.rank ≤ b.rank))

/-- A batch in the order of its positions. Edits that agree in start and rank keep the order in
which they were supplied. -/
def inOrder (edits : List Edit) : List Edit :=
  edits.mergeSort precedes

/-- An edit's span is forward, inside the source and aligned with its characters. -/
def checkSpan (source : String) (edit : Edit) : Except EditFault Unit :=
  let span := edit.span
  if span.stop < span.start ∨ Text.size source < span.stop then
    .error (.outOfBounds span (Text.size source))
  else if !Text.isBoundary source span.start then .error (.splitsCharacter span.start)
  else if !Text.isBoundary source span.stop then .error (.splitsCharacter span.stop)
  else .ok ()

/-- Whether an edit touches bytes that an earlier replacement of `taken` takes away. -/
def conflictsWith (edit : Edit) (taken : Span) : Bool :=
  if edit.isReplace then decide (edit.span.start < taken.stop)
  else taken.strictlyContains edit.span.start

/-- Walk ordered edits and compare each with the last replacement in front of it. -/
def sweep (last : Option Span) : List Edit → Except EditFault Unit
  | [] => .ok ()
  | edit :: later =>
    match last.filter edit.conflictsWith with
    | some taken => .error (.conflict taken edit.span)
    | none => sweep (if edit.isReplace then some edit.span else last) later

/-- Check a batch against the source without applying it. Spans are checked in the order supplied,
conflicts afterwards in the order of positions. -/
def validate (source : String) (edits : List Edit) : Except EditFault Unit := do
  edits.forM (checkSpan source)
  sweep none (inOrder edits)

/-- Put `text` in place of the bytes under `span` of a buffer, if the buffer can be cut there. -/
def overwrite? (buffer : String) (span : Span) (text : String) : Option String :=
  if span.stop < span.start then none
  else do
    let (before, rest) ← Text.cut? span.start buffer.toList
    let (_, after) ← Text.cut? (span.stop - span.start) rest
    return String.ofList before ++ text ++ String.ofList after

/-- Apply ordered edits from the last to the first. -/
def applyBackwards (source : String) (ordered : List Edit) : Option String :=
  ordered.reverse.foldlM (fun buffer edit => overwrite? buffer edit.span edit.text) source

/-- Apply a batch to the source. Validation excludes every position at which the loop could stop
early, so the fallback to the unchanged source is never taken. -/
def apply (source : String) (edits : List Edit) : Except EditFault String := do
  validate source edits
  return (applyBackwards source (inOrder edits)).getD source

end Edit

end CachedCalls
