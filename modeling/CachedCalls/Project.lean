/-
# Working on files

Single files and whole trees are wrapped without touching them; writing back is a separate step that
touches only files whose text changed. Syntax trees come from a parser that is a parameter
throughout.

What is logged on the way is left out, and files are wrapped one after the other: neither the log nor
work done at the same time shows in a report.
-/

import CachedCalls.Config
import CachedCalls.Discovery
import CachedCalls.Report

namespace CachedCalls

/-- A parser of source texts. -/
abbrev Parser := String → Tree

/-- Names of configuration files, the first one found is used. -/
def configFileNames : List String :=
  [".memoizerrc.json", "memoizer.config.json"]

namespace Store

/-- Load settings from a file. -/
def loadSettings (store : Store) (path : String) : Except Fault Settings := do
  let text ← Fault.context s!"failed to read config file: {path}" .access (store.read path)
  let settings ← Fault.context s!"failed to parse config file: {path}" .decode (Settings.parse text)
  Fault.context s!"invalid config in: {path}" id settings.validate
  return settings

/-- The configuration file of a project, if it has one. -/
def configFile? (store : Store) (root : String) : Option String :=
  (configFileNames.map (Path.join root)).find? store.exists?

/-- The settings of a project and the file they come from, if there is one. -/
def discoverSettings (store : Store) (root : String) : Except Fault (Option (Settings × String)) :=
  match store.configFile? root with
  | none => .ok none
  | some path => (store.loadSettings path).map fun settings => some (settings, path)

/-- The configuration of a project, from the given file or from the one the project has. -/
def loadConfig (store : Store) (root : String) (configPath : Option String) :
    Except Fault Config := do
  let (settings, source) ←
    match configPath with
    | some path => (store.loadSettings path).map fun settings => (settings, some path)
    | none =>
      (store.discoverSettings root).map fun
        | some (settings, path) => (settings, some path)
        | none => ({}, none)
  let config ← settings.resolve
  return { config with configPath := source, projectRoot := some (Path.absolute store.cwd root) }

/-- Wrap the functions of one file. -/
def wrapFile (store : Store) (parser : Parser) (config : Config) (path : String) :
    Except Fault FileReport := do
  let source ← Fault.context s!"Failed to read file: {path}" .access (store.read path)
  let outcome ← Fault.context s!"Failed to apply edits to {path}" .edits
    (wrapSource source (parser source) config.marker config.adapter)
  return .ofOutcome path outcome

/-- Whether a directory of this name is passed over when it is met below another one. -/
def isSkippedDirectory (name : String) : Bool :=
  ".".toList.isPrefixOf name.toList || "cmake-build-".toList.isPrefixOf name.toList ||
    ["build", "out", "target", "CMakeFiles"].contains name

end Store

namespace Entry

mutual

/-- Source files at an entry that was met in a directory. Links are passed over. -/
def sourcesAt (path name : String) : Entry → List String
  | file _ => if Path.isSource path then [path] else []
  | directory entries => if Store.isSkippedDirectory name then [] else sourcesIn path entries
  | link _ => []

/-- Source files among the entries of a directory, at any depth. -/
def sourcesIn (path : String) : List (String × Entry) → List String
  | [] => []
  | (name, entry) :: rest =>
    sourcesAt (Path.join path name) name entry ++ sourcesIn path rest

end

mutual

/-- The paths that are looked at for an entry that was met in a directory. -/
def visitedAt (path name : String) : Entry → List String
  | file _ | link _ => [path]
  | directory entries =>
    path :: if Store.isSkippedDirectory name then [] else visitedIn path entries

/-- The paths that are looked at for the entries of a directory, at any depth. -/
def visitedIn (path : String) : List (String × Entry) → List String
  | [] => []
  | (name, entry) :: rest =>
    visitedAt (Path.join path name) name entry ++ visitedIn path rest

end

end Entry

namespace Store

/-- Source files at a path: the file itself or those below the directory, in the order of paths.
Every path met on the way must be short enough to be looked at. -/
def sources (store : Store) (path : String) : Except Fault (List String) :=
  match store.entry? path with
  | some (.file _) => .ok (if Path.isSource path then [path] else [])
  | some (.directory entries) =>
    match (Entry.visitedIn path entries).find? fun met => decide (pathLimit < Text.size met) with
    | some met => .error (.during s!"Failed to read metadata: {met}" (.access .nameTooLong))
    | none => .ok (Path.sort (Entry.sourcesIn path entries))
  | some (.link _) | none => .error (.missingPath path)

/-- Wrap the functions of all files at a path that the configuration takes. Files that cannot be
read are passed over. Reports come in the order of file names. -/
def wrapPath (store : Store) (parser : Parser) (config : Config) (path : String) :
    Except Fault (List FileReport) := do
  let files := (← store.sources path).filter (config.takes store.cwd)
  let reports := files.filterMap fun file =>
    match store.wrapFile parser config file with
    | .ok report => some report
    | .error _ => none
  return FileReport.sort reports

/-- Write a report's text back to its file if it changed, and say whether it did. -/
def writeBack (store : Store) (report : FileReport) : Except Fault (Store × Bool) :=
  if report.isChanged then
    (Fault.context s!"Failed to write file: {report.file}" .access
      (store.write report.file report.patched)).map fun store => (store, true)
  else .ok (store, false)

end Store

end CachedCalls
