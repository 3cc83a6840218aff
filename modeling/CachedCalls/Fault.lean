/-
# Faults that end an operation

Unlike a rejection, a fault concerns a whole operation: a configuration that cannot be used, a file
that cannot be read. A fault may be wrapped in what was being attempted; its message then reads from
the attempt down to the cause.
-/

import CachedCalls.Edit
import CachedCalls.Files.Store
import CachedCalls.Glob
import CachedCalls.Json.Fault

namespace CachedCalls

/-- Why an operation failed. -/
inductive Fault where
  | notMarker (text : String)
  | notAdapter (text : String)
  | badPattern (pattern : String) (fault : Glob.Fault)
  | deepPattern (fault : Glob.DepthFault)
  | decode (fault : LocatedFault)
  | access (fault : AccessFault)
  | edits (fault : EditFault)
  | missingPath (path : String)
  /-- The fault `cause` arose while something was attempted. -/
  | during (attempt : String) (cause : Fault)

namespace Fault

/-- The sentences of a fault, the outermost attempt first and the cause last. -/
def chain : Fault → List String
  | notMarker text => [s!"`{text}` is not an attribute name"]
  | notAdapter text => [s!"`{text}` is not a C++ function name"]
  | badPattern pattern fault => [Glob.faultMessage pattern fault]
  | deepPattern fault => [fault.message]
  | decode fault => [fault.message]
  | access fault => [fault.message]
  | edits fault => [fault.message]
  | missingPath path => [s!"Path does not exist: {path}"]
  | during attempt cause => attempt :: cause.chain

/-- All sentences of a fault. -/
def message (fault : Fault) : String :=
  ": ".intercalate fault.chain

/-- The outermost sentence of a fault. -/
def headline (fault : Fault) : String :=
  fault.chain.headD ""

/-- Name the attempt during which a result became a fault. -/
def context {α ε : Type} (attempt : String) (wrap : ε → Fault) (result : Except ε α) :
    Except Fault α :=
  result.mapError fun cause => .during attempt (wrap cause)

end Fault

end CachedCalls
