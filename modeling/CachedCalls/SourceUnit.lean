/-
# Wrapping all functions of one source text

Candidates pass three gates: they become definitions with names of their own, each definition is
planned alone, and plans whose definitions share bytes are dropped together. What remains is applied
in one batch. Failures concern single functions; the order in which candidates arrive decides only
the order of failures that agree in line and name.
-/

import CachedCalls.Plan

namespace CachedCalls

/-- What a matcher reports for one tagged function: a record or a reason to leave it alone. -/
abbrev Candidate := Except Failure TaggedFunction

/-- A function that was wrapped. -/
structure WrappedFunction where
  name : String
  mangledName : String
  line : Nat
deriving DecidableEq, Repr

/-- The outcome for one source text. -/
structure UnitOutcome where
  /-- The source with every edit applied. -/
  patched : String
  /-- The applied edits, three for each wrapped function. -/
  edits : List Edit
  wrapped : List WrappedFunction
  failures : List Failure
deriving DecidableEq, Repr

namespace UnitOutcome

/-- Whether nothing was wrapped. -/
def isUnchanged (outcome : UnitOutcome) : Bool :=
  outcome.edits.isEmpty

end UnitOutcome

namespace Candidate

/-- The definition behind a candidate, or the failure it ends in. -/
def toDefinition (candidate : Candidate) : Except Failure Definition := do
  let f ← candidate
  match f.toDefinition with
  | .ok definition => return definition
  | .error rejection => throw ⟨f.line, rejection⟩

end Candidate

/-- Separate results into successes and failures, keeping the order of each. -/
def partitionResults {ε α : Type} (results : List (Except ε α)) : List α × List ε :=
  (results.filterMap fun
    | .ok a => some a
    | .error _ => none,
   results.filterMap fun
    | .ok _ => none
    | .error e => some e)

/-- Whether a name belongs to more than one of the definitions. -/
def isOverloaded (definitions : List Definition) (name : String) : Bool :=
  decide (1 < definitions.countP (·.name == name))

/-- Definitions with names of their own, and the failures of all other candidates: first those that
never became definitions, then the overloads. -/
def accept (candidates : List Candidate) : List Definition × List Failure :=
  let (definitions, failures) := partitionResults (candidates.map Candidate.toDefinition)
  let overloaded := definitions.filter fun d => isOverloaded definitions d.name
  (definitions.filter fun d => !isOverloaded definitions d.name,
   failures ++ overloaded.map fun d => ⟨d.line, d.name, .overloadedName⟩)

/-- Plan every definition on its own. -/
def planAll (source : String) (symbols : SymbolTable) (adapter : String)
    (definitions : List Definition) : List Plan × List Failure :=
  partitionResults <| definitions.map fun d =>
    (d.plan source symbols adapter).mapError fun rejection => ⟨d.line, rejection⟩

namespace Plan

/-- Whether the footprint of `a` may stand in front of that of `b`: by start, then by end. -/
def precedes (a b : Plan) : Bool :=
  decide (a.footprint.start < b.footprint.start) ||
    (decide (a.footprint.start = b.footprint.start) &&
      decide (a.footprint.stop ≤ b.footprint.stop))

/-- Walk plans in order of their footprints and name, for each, the first plan it was seen to share
bytes with. `active` holds the earlier plans that have overlapped every plan since their own: once
one of them meets a plan it does not overlap it can overlap no later one. -/
def withOverlaps (active : List Plan) : List Plan → List (Plan × Option String)
  | [] => []
  | plan :: later =>
    let reaching := active.filter fun earlier => earlier.footprint.overlaps plan.footprint
    let next := later.head?.filter fun later => plan.footprint.overlaps later.footprint
    (plan, (reaching.head? <|> next).map (·.function)) :: withOverlaps (reaching ++ [plan]) later

end Plan

/-- Plans that share no byte with another one, in source order, and the failures of the others. -/
def rejectOverlaps (plans : List Plan) : List Plan × List Failure :=
  partitionResults <| (Plan.withOverlaps [] (plans.mergeSort Plan.precedes)).map fun
    | (plan, none) => .ok plan
    | (plan, some other) => .error ⟨plan.line, plan.function, .overlappingMatch other⟩

namespace Failure

/-- Order of failures in a report: by line, then by function name. -/
def precedes (a b : Failure) : Bool :=
  decide (a.line < b.line) ||
    (decide (a.line = b.line) && decide (a.rejection.function ≤ b.rejection.function))

end Failure

/-- Wrap the candidates of one source text. Mangled names are checked against `symbols`. -/
def wrapUnit (source : String) (symbols : SymbolTable) (adapter : String)
    (candidates : List Candidate) : Except EditFault UnitOutcome := do
  let (definitions, refused) := accept candidates
  let (plans, unplanned) := planAll source symbols adapter definitions
  let (surviving, overlapping) := rejectOverlaps plans
  let edits := surviving.flatMap Plan.edits
  let patched ← Edit.apply source edits
  return {
    patched := patched
    edits := edits
    wrapped := surviving.map fun plan => ⟨plan.function, plan.mangledName, plan.line⟩
    failures := (refused ++ unplanned ++ overlapping).mergeSort Failure.precedes }

/-- Wrap functions described from outside. Mangled names are checked against every word of the
source. -/
def wrapFunctions (source : String) (functions : List TaggedFunction) (adapter : String) :
    Except EditFault UnitOutcome :=
  wrapUnit source (SymbolTable.scan source) adapter (functions.map .ok)

end CachedCalls
