/-
# Syntax trees as JSON

A tree is an array of rows in preorder. A row gives the depth, the kind, the field or null, the
first byte and the byte behind the last one, and two numbers that say whether the node is named and
whether it holds a syntax error.
-/

import CachedCalls.Json.Access
import CachedCalls.Tree

namespace CachedCalls.Tree

/-- The depth and the label of one row. -/
def rowOfJson? (value : Json) : Option (Nat × NodeLabel) := do
  match ← value.elements? with
  | [depth, kind, field, start, stop, named, hasError] =>
    return (← depth.nat?,
      { kind := ← kind.text?
        field := ← Json.optional? Json.text? (some field)
        span := ⟨← start.nat?, ← stop.nat?⟩
        named := (← named.nat?) != 0
        hasError := (← hasError.nat?) != 0 })
  | _ => none

/-- The tree given by an array of rows. -/
def ofJson? (value : Json) : Option Tree := do
  ofRows? (← (← value.elements?).mapM rowOfJson?)

end CachedCalls.Tree
