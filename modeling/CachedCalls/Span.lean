/-
# Byte spans

A span names a contiguous byte range of one fixed source text. Spans arrive from outside and are not
assumed to be forward, inside the text or aligned with its characters; reading the text under a span
is therefore partial, and every other operation is arithmetic on the two bounds.
-/

import CachedCalls.Text.Bytes

namespace CachedCalls

/-- A byte range, from `start` up to and without `stop`. -/
structure Span where
  start : Nat
  stop : Nat
deriving DecidableEq, Repr

namespace Span

/-- The span holding no byte at `offset`. -/
def empty (offset : Nat) : Span :=
  ⟨offset, offset⟩

/-- Whether `offset` lies between the bounds and on neither of them. -/
def strictlyContains (span : Span) (offset : Nat) : Bool :=
  decide (span.start < offset) && decide (offset < span.stop)

/-- Whether two spans share at least one byte. Touching spans share none, and an empty span shares
none with anything. -/
def overlaps (span other : Span) : Bool :=
  decide (max span.start other.start < min span.stop other.stop)

/-- The text under a span. There is none when the span is backwards, leaves the source or cuts
through a character. -/
def slice? (span : Span) (source : String) : Option String :=
  if span.stop < span.start then none
  else do
    let (_, rest) ← Text.cut? span.start source.toList
    let (inside, _) ← Text.cut? (span.stop - span.start) rest
    return String.ofList inside

/-- Both bounds, separated by two dots. -/
def display (span : Span) : String :=
  s!"{span.start}..{span.stop}"

end Span

end CachedCalls
