/-
# Why a tagged function is left alone

A rejection concerns one function and never stops the work on another. Every rejection carries a
stable kind, for programs, and a sentence, for people.
-/

namespace CachedCalls

/-- What stands in the way of wrapping a function. -/
inductive Cause where
  /-- Only a declaration was found. -/
  | missingBody
  /-- The recorded offsets do not fit the source. -/
  | unresolvableSpan (reason : String)
  /-- The name the function would be renamed to is taken. -/
  | nameCollision (mangled : String)
  /-- Another accepted function of the unit has the same name. -/
  | overloadedName
  /-- The definition shares bytes with another one. -/
  | overlappingMatch (other : String)
  /-- The shape of the declaration cannot be forwarded by a wrapper. -/
  | unsupportedSignature (reason : String)
deriving DecidableEq, Repr

namespace Cause

/-- The stable identifier of a cause. -/
def kind : Cause → String
  | missingBody => "missing_body"
  | unresolvableSpan _ => "unresolvable_span"
  | nameCollision _ => "name_collision"
  | overloadedName => "overloaded_name"
  | overlappingMatch _ => "overlapping_match"
  | unsupportedSignature _ => "unsupported_signature"

end Cause

/-- A function together with what stands in its way. -/
structure Rejection where
  function : String
  cause : Cause
deriving DecidableEq, Repr

namespace Rejection

/-- The sentence shown to the user. -/
def message (rejection : Rejection) : String :=
  let f := rejection.function
  match rejection.cause with
  | .missingBody => s!"`{f}` is tagged but has no body; only definitions can be memoized"
  | .unresolvableSpan reason => s!"cannot resolve the source spans of `{f}`: {reason}"
  | .nameCollision mangled =>
    s!"renaming `{f}` would produce `{mangled}`, which already names a symbol in this unit"
  | .overloadedName =>
    s!"`{f}` is tagged more than once in this unit; overloads cannot share one mangled name"
  | .overlappingMatch other => s!"`{f}` overlaps the tagged function `{other}`"
  | .unsupportedSignature reason => s!"`{f}` has an unsupported signature: {reason}"

end Rejection

/-- A rejection at the line of the function's declaration. -/
structure Failure where
  line : Nat
  rejection : Rejection
deriving DecidableEq, Repr

end CachedCalls
