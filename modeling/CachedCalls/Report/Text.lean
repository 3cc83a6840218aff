/-
# Reports for people

A table with one line for each tagged function, and the resulting source texts.
-/

import CachedCalls.Report

namespace CachedCalls

/-- A text brought to a width, with blanks behind it or with its end cut off and marked by dots.
Widths count characters. -/
def column (width : Nat) (text : String) : String :=
  if width < text.toList.length then String.ofList (text.toList.take (width - 3)) ++ "..."
  else text ++ String.ofList (List.replicate (width - text.toList.length) ' ')

/-- One line of the table. -/
structure Row where
  file : String
  line : Nat
  function : String
  result : String
deriving DecidableEq, Repr

namespace Row

/-- Order of the lines of one file: by line, then by function. -/
def precedes (a b : Row) : Bool :=
  decide (a.line < b.line) ||
    (decide (a.line = b.line) && decide (a.function ≤ b.function))

/-- A line of the table. A line number longer than its column is not cut. -/
def render (row : Row) : String :=
  let number := toString row.line
  column 30 row.file ++ " " ++ column (max 6 number.toList.length) number ++ " " ++
    column 24 row.function ++ " " ++ row.result ++ "\n"

end Row

namespace FileReport

/-- The lines of the table for one file. -/
def rows (report : FileReport) : List Row :=
  let wrapped := report.wrapped.map fun f =>
    ⟨report.file, f.line, f.name, s!"rewritten -> {f.mangledName}"⟩
  let failed := report.failures.map fun f =>
    ⟨report.file, f.line, f.function, s!"{f.kind}: {f.message}"⟩
  (wrapped ++ failed).mergeSort Row.precedes

/-- The heading of the table. -/
def heading : String :=
  column 30 "FILE" ++ " " ++ column 6 "LINE" ++ " " ++ column 24 "FUNCTION" ++ " RESULT\n"

/-- The totals below the table. -/
def totals (reports : List FileReport) : String :=
  let wrapped := (reports.flatMap (·.wrapped)).length
  let failed := (reports.flatMap (·.failures)).length
  let changed := reports.countP (·.isChanged)
  s!"\n{wrapped} function(s) rewritten, {failed} failed, {changed} of {reports.length} file(s) changed\n"

/-- The table of reports. -/
def renderText (reports : List FileReport) : String :=
  heading ++ String.join ((reports.flatMap rows).map Row.render) ++ totals reports

/-- A source text under a line with its file name, ending in a line break. -/
def renderTitled (report : FileReport) : String :=
  "==> " ++ report.file ++ " <==\n" ++ report.patched ++
    (if report.patched.toList.getLast? = some '\n' then "" else "\n")

/-- The source texts of reports: a single one as it is, several with titles and blank lines between
them. -/
def renderSource : List FileReport → String
  | [only] => only.patched
  | reports => "\n".intercalate (reports.map renderTitled)

end FileReport

end CachedCalls
