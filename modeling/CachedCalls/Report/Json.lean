/-
# Reports as JSON

The resulting text is not part of the JSON form: it can be had by applying the edits. A report read
back therefore has no text.
-/

import CachedCalls.Edit.Json
import CachedCalls.Report

namespace CachedCalls

namespace WrappedFunction

/-- A wrapped function as a JSON value. -/
def toJson (f : WrappedFunction) : Json :=
  .object [("function", .string f.name), ("line", .ofNat f.line),
    ("mangled_name", .string f.mangledName)]

/-- How a wrapped function is read. -/
def shape : RecordShape Reader WrappedFunction where
  title := "struct RewrittenReport"
  fields := ["function", "line", "mangled_name"]
  blank := ⟨"", "", 0⟩
  assign f name := do
    match name with
    | "function" => return { f with name := ← Reader.text }
    | "line" => return { f with line := ← Reader.line }
    | _ => return { f with mangledName := ← Reader.text }

/-- Read a wrapped function. -/
def reader : Reader WrappedFunction :=
  Reader.record shape .complete

end WrappedFunction

namespace FailureReport

/-- A failure as a JSON value. -/
def toJson (f : FailureReport) : Json :=
  .object [("function", .string f.function), ("line", .ofNat f.line), ("kind", .string f.kind),
    ("message", .string f.message)]

/-- How a failure is read. -/
def shape : RecordShape Reader FailureReport where
  title := "struct FailureReport"
  fields := ["function", "line", "kind", "message"]
  blank := ⟨"", 0, "", ""⟩
  assign f name := do
    match name with
    | "function" => return { f with function := ← Reader.text }
    | "line" => return { f with line := ← Reader.line }
    | "kind" => return { f with kind := ← Reader.text }
    | _ => return { f with message := ← Reader.text }

/-- Read a failure. -/
def reader : Reader FailureReport :=
  Reader.record shape .complete

end FailureReport

namespace FileReport

/-- A report as a JSON value. -/
def toJson (report : FileReport) : Json :=
  .object [("file", .string report.file), ("rewritten", .array (report.wrapped.map (·.toJson))),
    ("failures", .array (report.failures.map (·.toJson))),
    ("edits", .array (report.edits.map (·.toJson)))]

/-- How a report is read. Lists and records are open around the values that an edit keeps: the
reports, the report, its edits and the edit. -/
def shape : RecordShape Reader FileReport where
  title := "struct FileReport"
  fields := ["file", "rewritten", "failures", "edits"]
  blank := ⟨"", [], [], [], ""⟩
  assign report name := do
    match name with
    | "file" => return { report with file := ← Reader.text }
    | "rewritten" => return { report with wrapped := ← Reader.list WrappedFunction.reader }
    | "failures" => return { report with failures := ← Reader.list FailureReport.reader }
    | _ => return { report with edits := ← Reader.list (Edit.reader (Reader.depthLimit - 4)) }

/-- Read a report. -/
def reader : Reader FileReport :=
  Reader.record shape .complete

/-- Reports as JSON text. -/
def renderJson (reports : List FileReport) : String :=
  (Json.array (reports.map (·.toJson))).pretty

/-- Read reports from JSON text. -/
def readList (text : String) : Except LocatedFault (List FileReport) :=
  (Reader.list reader).run text

end FileReport

end CachedCalls
