/-
# Running commands

A command reads a store and ends in an exit status, the text it prints, at most one line of
complaint, and the store it leaves behind. Only wrapping with permission to write changes the store,
and only after everything was printed.

A text about the program itself is named and not spelled out, and what is logged on the way is not
part of an outcome.
-/

import CachedCalls.CommandLine.Arguments
import CachedCalls.Project
import CachedCalls.Report.Json
import CachedCalls.Report.Text

namespace CachedCalls.CommandLine

/-- How a run ends. -/
structure Outcome where
  status : Nat
  output : String
  /-- The text about the program that is printed, if it was asked for. -/
  page : Option Page := none
  complaint : Option String := none
  store : Store

/-- Entries whose presence marks a directory as the root of a project. -/
def rootMarkers : List String :=
  configFileNames ++ [".git"]

/-- The nearest directory at or above a path that holds a marker of a project's root, or the path's
own directory if there is none. -/
def projectRoot (store : Store) (path : String) : String :=
  let absolute := Path.absolute store.cwd path
  let start := if store.isFile absolute then (Path.parent? absolute).getD absolute else absolute
  ((Path.ancestors start).find? fun directory =>
    rootMarkers.any fun marker => store.exists? (Path.join directory marker)).getD start

/-- Reports in the given format. -/
def Format.render : Format → List FileReport → String
  | text, reports => FileReport.renderText reports
  | json, reports => FileReport.renderJson reports ++ "\n"
  | source, reports => FileReport.renderSource reports

/-- Write reports back one after the other. The first that fails ends the work; what was written
before it stays. -/
def writeAll (store : Store) : List FileReport → Store × Option Fault
  | [] => (store, none)
  | report :: rest =>
    match store.writeBack report with
    | .ok (store, _) => writeAll store rest
    | .error fault => (store, some fault)

/-- A run that ends in a fault before anything is printed. -/
def Outcome.failed (store : Store) (fault : Fault) : Outcome :=
  { status := 1, output := "", complaint := s!"Error: {fault.headline}", store := store }

/-- The configuration for a run: that of the project, with marker and adapter from the command
line if they are given. -/
def runConfig (store : Store) (path : String) (config adapter marker : Option String) :
    Except Fault Config := do
  if !store.exists? path then throw (.missingPath path)
  let loaded ← Fault.context "failed to load configuration" id
    (store.loadConfig (projectRoot store path) config)
  let marked ←
    match marker with
    | some marker => loaded.setMarker marker
    | none => pure loaded
  match adapter with
  | some adapter => marked.setAdapter adapter
  | none => pure marked

/-- Show reports, write them back if asked to, and tell by the status whether a function was left
alone. -/
def finishWrap (store : Store) (write : Bool) (format : Format) (reports : List FileReport) :
    Outcome :=
  let output := format.render reports
  match if write then writeAll store reports else (store, none) with
  | (store, some fault) =>
    { status := 1, output := output, complaint := s!"Error: {fault.headline}", store := store }
  | (store, none) =>
    { status := if reports.any (·.hasFailures) then 1 else 0, output := output, store := store }

/-- The text that shows a configuration. -/
def describeConfig (config : Config) : String :=
  let source := config.configPath.getD "defaults (no config file found)"
  let includes :=
    if config.includes.isSome then "custom patterns" else "all C++ sources and headers"
  let excludes := if config.customExcludes then "custom" else "default"
  s!"Configuration:\n  Source: {source}\n\nRewrite:\n  marker: [[{config.marker}]]\n" ++
    s!"  adapter: {config.adapter}\n\nFilters:\n  include: {includes}\n" ++
    s!"  exclude: active ({excludes} patterns)\n"

/-- Run a command. -/
def Command.run (store : Store) (parser : Parser) : Command → Outcome
  | wrap path write format config adapter marker =>
    match (do
      let config ← runConfig store path config adapter marker
      store.wrapPath parser config path) with
    | .error fault => .failed store fault
    | .ok reports => finishWrap store write format reports
  | validateConfig path =>
    match store.loadConfig store.cwd path with
    | .error fault =>
      { status := 1
        output := ""
        complaint := s!"Config validation failed: {fault.message}"
        store := store }
    | .ok config =>
      match config.configPath with
      | some path => { status := 0, output := s!"Config valid: {path}\n", store := store }
      | none =>
        { status := 0, output := "No config file found. Using defaults.\n", store := store }
  | showConfig path =>
    match Fault.context "failed to load configuration" id (store.loadConfig store.cwd path) with
    | .error fault => .failed store fault
    | .ok config => { status := 0, output := describeConfig config, store := store }
  | showPage page => { status := 0, output := "", page := page, store := store }

/-- Run the command that arguments ask for. A usage error prints nothing and changes nothing. -/
def run (store : Store) (parser : Parser) (arguments : List String) : Outcome :=
  match parse? arguments with
  | some command => command.run store parser
  | none => { status := 2, output := "", store := store }

end CachedCalls.CommandLine
