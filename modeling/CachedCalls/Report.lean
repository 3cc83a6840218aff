/-
# Reports

What happened to one file, for people and for programs: the functions that were wrapped, those that
were left alone and why, the edits, and the resulting text.
-/

import CachedCalls.SourceUnit

namespace CachedCalls

/-- A function that was left alone, with its reason in words. -/
structure FailureReport where
  function : String
  line : Nat
  kind : String
  message : String
deriving DecidableEq, Repr

namespace Failure

/-- A failure in words. -/
def report (failure : Failure) : FailureReport :=
  ⟨failure.rejection.function, failure.line, failure.rejection.cause.kind,
    failure.rejection.message⟩

end Failure

/-- The outcome for one file. -/
structure FileReport where
  file : String
  wrapped : List WrappedFunction
  failures : List FailureReport
  /-- The applied edits, with offsets into the text before them. -/
  edits : List Edit
  /-- The text after the edits. -/
  patched : String
deriving DecidableEq, Repr

namespace FileReport

/-- The report of a file's outcome. -/
def ofOutcome (file : String) (outcome : UnitOutcome) : FileReport :=
  ⟨file, outcome.wrapped, outcome.failures.map (·.report), outcome.edits, outcome.patched⟩

/-- Whether the file's text changed. -/
def isChanged (report : FileReport) : Bool :=
  !report.edits.isEmpty

/-- Whether a function of the file was left alone. -/
def hasFailures (report : FileReport) : Bool :=
  !report.failures.isEmpty

/-- Order of reports: by file name. -/
def precedes (a b : FileReport) : Bool :=
  decide (a.file ≤ b.file)

/-- Reports in the order of their file names. -/
def sort (reports : List FileReport) : List FileReport :=
  reports.mergeSort precedes

end FileReport

end CachedCalls
