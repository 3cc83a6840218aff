/-
# Configuration

Settings are what a configuration file says; all of them are optional. A configuration is what an
operation runs with: a marker, an adapter and the patterns that choose files. Marker and adapter are
checked on every way into a configuration, so a configuration never holds an unusable one.
-/

import CachedCalls.Fault
import CachedCalls.Json.Record
import CachedCalls.Text.Word
import CachedCalls.Wrapper

namespace CachedCalls

/-- The attribute that tags functions when none is configured. -/
def defaultMarker : String :=
  "memoize"

/-- Patterns that exclude version control, build and vendored trees when none are configured. -/
def defaultExcludes : List String :=
  ["**/.git/**", "**/build/**", "**/cmake-build-*/**", "**/vendor/**", "**/third_party/**"]

/-- A marker is a single attribute name. -/
def checkMarker (marker : String) : Except Fault Unit :=
  if Text.isIdentifier marker then .ok () else .error (.notMarker marker)

/-- The segments of an adapter's name behind a leading scope operator. -/
def adapterSegments (adapter : String) : List String :=
  let name := if isRooted adapter then adapter.toList.drop 2 else adapter.toList
  (scopeSegments name).map String.ofList

/-- An adapter is an identifier, possibly qualified by namespaces or by the global scope. -/
def checkAdapter (adapter : String) : Except Fault Unit :=
  if (adapterSegments adapter).all Text.isIdentifier then .ok () else .error (.notAdapter adapter)

/-- What a configuration file says. -/
structure Settings where
  /-- Patterns of files to take; all source files if there are none. -/
  includes : List String := []
  /-- Patterns of files to leave out; the default ones if there are none. -/
  excludes : List String := []
  marker : Option String := none
  adapter : Option String := none
deriving DecidableEq, Repr

namespace Settings

/-- How settings are read. -/
def shape : RecordShape Reader Settings where
  title := "struct MemoizerConfig"
  fields := ["include", "exclude", "marker", "adapter"]
  blank := {}
  assign settings name := do
    match name with
    | "include" => return { settings with includes := ← Reader.list Reader.text }
    | "exclude" => return { settings with excludes := ← Reader.list Reader.text }
    | "marker" => return { settings with marker := ← Reader.optionalText }
    | _ => return { settings with adapter := ← Reader.optionalText }

/-- Read settings from JSON text. -/
def parse (text : String) : Except LocatedFault Settings :=
  (Reader.record shape .closed).run text

/-- Read a pattern, naming its role in the fault. -/
def checkPattern (role pattern : String) : Except Fault Unit := do
  let _ ← Fault.context s!"invalid {role} pattern: {pattern}" (.badPattern pattern)
    (Glob.parse pattern)

/-- Marker, adapter and patterns can be used. The first that cannot decides the fault. -/
def validate (settings : Settings) : Except Fault Unit := do
  if let some marker := settings.marker then
    Fault.context "invalid marker" id (checkMarker marker)
  if let some adapter := settings.adapter then
    Fault.context "invalid adapter" id (checkAdapter adapter)
  settings.includes.forM (checkPattern "include")
  settings.excludes.forM (checkPattern "exclude")

end Settings

/-- What an operation runs with. -/
structure Config where
  /-- Patterns of files to take, unless all are taken. -/
  includes : Option (List Glob)
  /-- Patterns of files to leave out. -/
  excludes : List Glob
  /-- Whether the patterns to leave out were configured. -/
  customExcludes : Bool
  marker : String
  adapter : String
  /-- The file the configuration was read from. -/
  configPath : Option String
  /-- The directory that patterns are relative to. -/
  projectRoot : Option String

/-- Read several patterns that are used together. -/
def parsePatterns (patterns : List String) : Except Fault (List Glob) := do
  let globs ← patterns.mapM fun pattern => (Glob.parse pattern).mapError (.badPattern pattern)
  (Glob.checkDepth globs).mapError .deepPattern
  return globs

namespace Settings

/-- The configuration that settings stand for, with defaults for what they leave open. -/
def resolve (settings : Settings) : Except Fault Config := do
  settings.validate
  let includes ←
    if settings.includes.isEmpty then pure none
    else some <$> parsePatterns settings.includes
  let excludes ←
    parsePatterns (if settings.excludes.isEmpty then defaultExcludes else settings.excludes)
  return {
    includes := includes
    excludes := excludes
    customExcludes := !settings.excludes.isEmpty
    marker := settings.marker.getD defaultMarker
    adapter := settings.adapter.getD defaultAdapter
    configPath := none
    projectRoot := none }

end Settings

namespace Config

/-- The configuration without any settings. -/
def defaults : Except Fault Config :=
  Settings.resolve {}

/-- A change of the configuration in use. It comes to an end or to a fault, and leaves a
configuration behind in either case. -/
abbrev Change :=
  ExceptT Fault (StateM Config)

namespace Change

/-- What comes of a change of a configuration, and the configuration that it leaves behind. -/
def on (change : Change Unit) (config : Config) : Except Fault Unit × Config :=
  change.run.run config

/-- The configuration behind a change, for those who go no further after a fault. -/
def result (change : Change Unit) (config : Config) : Except Fault Config :=
  let (outcome, changed) := change.on config
  outcome.map fun () => changed

end Change

/-- Put what was computed into the configuration in use, unless there was a fault. -/
def assign {α : Type} (computed : Except Fault α) (update : α → Config → Config) : Change Unit := do
  let value ← computed
  modify (update value)

/-- Replace the marker, once it was found to be usable. -/
def replaceMarker (marker : String) : Change Unit :=
  assign (Fault.context "invalid --marker" id (checkMarker marker)) fun () config =>
    { config with marker := marker }

/-- Replace the adapter, once it was found to be usable. -/
def replaceAdapter (adapter : String) : Change Unit :=
  assign (Fault.context "invalid --adapter" id (checkAdapter adapter)) fun () config =>
    { config with adapter := adapter }

/-- The configuration with another marker. -/
def setMarker (config : Config) (marker : String) : Except Fault Config :=
  (replaceMarker marker).result config

/-- The configuration with another adapter. -/
def setAdapter (config : Config) (adapter : String) : Except Fault Config :=
  (replaceAdapter adapter).result config

/-- A path as patterns see it: below the project root if it lies there, otherwise as given, and
without single dots in either case. -/
def relativePath (config : Config) (cwd path : String) : String :=
  let stripped := config.projectRoot.bind fun root =>
    Path.stripComponents? (Path.components (Path.absolute cwd path)) (Path.components root)
  Path.clean (stripped.getD (Path.components path))

/-- Whether a file is taken. Being left out wins over being taken. -/
def takes (config : Config) (cwd path : String) : Bool :=
  let path := config.relativePath cwd path
  if config.excludes.any (·.isMatch path) then false
  else
    match config.includes with
    | some includes => includes.any (·.isMatch path)
    | none => true

end Config

end CachedCalls
