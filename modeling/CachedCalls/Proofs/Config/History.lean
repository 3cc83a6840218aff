/-
# Configurations in use

Whatever runs with a configuration relies on its marker and its adapter, and
neither is checked again where it is used. They come in through several doors:
from settings that a file holds or a caller supplies, as defaults where settings
say nothing, and as replacements in the configuration in use. A history is any
sequence of these operations. A session carries, beside the configuration in use,
the settings it was built from, which nothing else records. Each operation keeps
the names usable and the record of configured patterns right, and so does every
history.
-/

import CachedCalls.Proofs.Config.QualifiedName
import CachedCalls.Proofs.Project.Reports

namespace CachedCalls

open Text

/-- A check in front of a computation only decides whether it is reached. -/
theorem check_bind_eq_ok_iff {ε β : Type} {check : Except ε Unit} {rest : Except ε β} {b : β} :
    (check >>= fun _ => rest) = .ok b ↔ check = .ok () ∧ rest = .ok b := by
  rw [bind_eq_ok_iff, Unique.exists_iff]

theorem pure_eq_ok_iff {ε α : Type} {a b : α} : (pure a : Except ε α) = .ok b ↔ b = a := by
  simp [pure, Except.pure, eq_comm]

/-! ## Settings that become a configuration -/

namespace Settings

variable {settings : Settings}

/-- Everything that validation looks at. -/
theorem validate_eq_ok_iff :
    settings.validate = .ok () ↔
      (∀ marker ∈ settings.marker, isIdentifier marker = true) ∧
      (∀ adapter ∈ settings.adapter, IsQualifiedName adapter) ∧
      settings.includes.forM (checkPattern "include") = .ok () ∧
      settings.excludes.forM (checkPattern "exclude") = .ok () := by
  rw [validate]
  cases settings.marker with
  | none =>
      cases settings.adapter with
      | none => simp [check_bind_eq_ok_iff]
      | some adapter =>
          simp [check_bind_eq_ok_iff, Fault.context_eq_ok_iff, checkAdapter_eq_ok_iff]
  | some marker =>
      cases settings.adapter with
      | none => simp [check_bind_eq_ok_iff, Fault.context_eq_ok_iff, checkMarker_eq_ok_iff]
      | some adapter =>
          simp [check_bind_eq_ok_iff, Fault.context_eq_ok_iff, checkMarker_eq_ok_iff,
            checkAdapter_eq_ok_iff]

/-- The configuration that settings become once their patterns have been read. -/
def configWith (settings : Settings) (includes : Option (List Glob)) (excludes : List Glob) :
    Config where
  includes := includes
  excludes := excludes
  customExcludes := !settings.excludes.isEmpty
  marker := settings.marker.getD defaultMarker
  adapter := settings.adapter.getD defaultAdapter
  configPath := none
  projectRoot := none

theorem exists_configWith_of_resolve {config : Config} (h : settings.resolve = .ok config) :
    settings.validate = .ok () ∧
      ∃ includes excludes, config = settings.configWith includes excludes := by
  rw [resolve, bind_eq_ok_iff] at h
  obtain ⟨⟨⟩, hvalid, h⟩ := h
  refine ⟨hvalid, ?_⟩
  cases hincludes : settings.includes.isEmpty with
  | true =>
      simp only [hincludes, if_true, bind_eq_ok_iff, pure_eq_ok_iff] at h
      obtain ⟨includes, -, excludes, -, rfl⟩ := h
      exact ⟨includes, excludes, rfl⟩
  | false =>
      simp only [hincludes, Bool.false_eq_true, if_false, bind_eq_ok_iff, pure_eq_ok_iff] at h
      obtain ⟨includes, -, excludes, -, rfl⟩ := h
      exact ⟨includes, excludes, rfl⟩

end Settings

namespace Config

/-- A configuration whose names can be used, and which was built from the given settings as far as
its patterns are concerned. -/
structure BuiltOn (config : Config) (settings : Settings) : Prop where
  marker : isIdentifier config.marker = true
  adapter : IsQualifiedName config.adapter
  customExcludes : config.customExcludes = true ↔ settings.excludes ≠ []

theorem isQualifiedName_defaultAdapter : IsQualifiedName defaultAdapter :=
  ⟨"", [defaultAdapter], Or.inl rfl, by simp, by simp; decide, by simp⟩

theorem builtOn_of_resolve {settings : Settings} {config : Config}
    (h : settings.resolve = .ok config) : config.BuiltOn settings := by
  obtain ⟨hvalid, includes, excludes, rfl⟩ := Settings.exists_configWith_of_resolve h
  obtain ⟨hmarker, hadapter, -, -⟩ := Settings.validate_eq_ok_iff.mp hvalid
  refine ⟨?_, ?_, ?_⟩
  · show isIdentifier (settings.marker.getD defaultMarker) = true
    cases hm : settings.marker with
    | none => decide
    | some marker => exact hmarker marker hm
  · show IsQualifiedName (settings.adapter.getD defaultAdapter)
    cases ha : settings.adapter with
    | none => exact isQualifiedName_defaultAdapter
    | some adapter => exact hadapter adapter ha
  · simp [Settings.configWith]

theorem isOk_defaults : defaults.isOk = true := by
  decide +kernel

theorem exists_defaults : ∃ config, defaults = .ok config := by
  have hok := isOk_defaults
  cases h : defaults with
  | error fault =>
      rw [h] at hok
      cases hok
  | ok config => exact ⟨config, rfl⟩

/-! ## Changing a configuration -/

section Assign

variable {α : Type} {computed : Except Fault α} {update : α → Config → Config} {config : Config}

/-- Whatever can fail comes before the assignment. -/
theorem on_assign (computed : Except Fault α) (update : α → Config → Config) (config : Config) :
    (assign computed update).on config =
      match computed with
      | .ok value => (.ok (), update value config)
      | .error fault => (.error fault, config) := by
  cases computed <;> rfl

theorem on_assign_eq_ok_iff {changed : Config} :
    (assign computed update).on config = (.ok (), changed) ↔
      ∃ value, computed = .ok value ∧ changed = update value config := by
  rw [on_assign]
  cases computed <;> simp [eq_comm]

theorem eq_of_on_assign_eq_error {left : Config} {fault : Fault}
    (h : (assign computed update).on config = (.error fault, left)) : left = config := by
  rw [on_assign] at h
  cases computed with
  | ok value => cases h
  | error other => exact (Prod.mk.inj h).2.symm

end Assign

theorem on_replaceMarker_eq_ok_iff {config changed : Config} {marker : String} :
    (replaceMarker marker).on config = (.ok (), changed) ↔
      isIdentifier marker = true ∧ changed = { config with marker := marker } := by
  rw [replaceMarker, on_assign_eq_ok_iff, Unique.exists_iff, Fault.context_eq_ok_iff,
    checkMarker_eq_ok_iff]

theorem on_replaceAdapter_eq_ok_iff {config changed : Config} {adapter : String} :
    (replaceAdapter adapter).on config = (.ok (), changed) ↔
      IsQualifiedName adapter ∧ changed = { config with adapter := adapter } := by
  rw [replaceAdapter, on_assign_eq_ok_iff, Unique.exists_iff, Fault.context_eq_ok_iff,
    checkAdapter_eq_ok_iff]

end Config

/-! ## Settings of a project -/

namespace Store

variable {store : Store}

/-- The file that holds the settings for a project: the given one, or else the one the project
has. -/
def settingsFile? (store : Store) (root : String) (configPath : Option String) : Option String :=
  configPath.or (store.configFile? root)

/-- The settings for a project: what the file says that holds them, and nothing at all if there is
no such file. -/
def settingsFor? (store : Store) (root : String) (configPath : Option String) : Option Settings :=
  match store.settingsFile? root configPath with
  | none => some {}
  | some path => (store.read path).toOption.bind fun text => (Settings.parse text).toOption

theorem parse_of_loadSettings {path : String} {settings : Settings}
    (h : store.loadSettings path = .ok settings) :
    ∃ text, store.read path = .ok text ∧ Settings.parse text = .ok settings := by
  simp only [loadSettings, bind_eq_ok_iff, Fault.context_eq_ok_iff, pure_eq_ok_iff] at h
  obtain ⟨text, htext, parsed, hparsed, -, -, rfl⟩ := h
  exact ⟨text, htext, hparsed⟩

/-- Loading in three steps: take the settings from their file if there is one, resolve them, fill in
the two paths. -/
theorem loadConfig_eq (store : Store) (root : String) (configPath : Option String) :
    store.loadConfig root configPath =
      (match store.settingsFile? root configPath with
        | none => .ok {}
        | some path => store.loadSettings path) >>= fun settings =>
      settings.resolve >>= fun built => .ok { built with
        configPath := store.settingsFile? root configPath
        projectRoot := some (Path.absolute store.cwd root) } := by
  cases configPath with
  | some path =>
      simp only [loadConfig, settingsFile?, Option.some_or]
      cases store.loadSettings path <;> rfl
  | none =>
      simp only [loadConfig, settingsFile?, Option.none_or]
      unfold discoverSettings
      cases store.configFile? root with
      | none => rfl
      | some path =>
          dsimp only
          cases store.loadSettings path <;> rfl

/-- A loaded configuration is what the settings of the project resolve to, but for the two paths. -/
theorem exists_settings_of_loadConfig {root : String} {configPath : Option String}
    {config : Config} (h : store.loadConfig root configPath = .ok config) :
    ∃ settings built, store.settingsFor? root configPath = some settings ∧
      settings.resolve = .ok built ∧
      config = { built with
        configPath := store.settingsFile? root configPath
        projectRoot := some (Path.absolute store.cwd root) } := by
  simp only [loadConfig_eq, bind_eq_ok_iff, Except.ok.injEq] at h
  obtain ⟨settings, hsettings, built, hbuilt, rfl⟩ := h
  refine ⟨settings, built, ?_, hbuilt, rfl⟩
  cases hfile : store.settingsFile? root configPath with
  | none =>
      rw [hfile, Except.ok.injEq] at hsettings
      rw [settingsFor?, hfile, hsettings]
  | some path =>
      rw [hfile] at hsettings
      obtain ⟨text, htext, hparse⟩ := parse_of_loadSettings hsettings
      rw [settingsFor?, hfile]
      simp [htext, hparse, Except.toOption]

end Store

namespace Config

/-! ## Operations on the configuration in use -/

/-- A way to come by a configuration, or to change the one in use. -/
inductive Operation where
  /-- Load the configuration of a project. -/
  | load (store : Store) (root : String) (configPath : Option String)
  /-- Resolve settings. -/
  | resolve (settings : Settings)
  /-- Replace the marker. -/
  | setMarker (marker : String)
  /-- Replace the adapter. -/
  | setAdapter (adapter : String)

namespace Operation

/-- What an operation does to the configuration in use. -/
def perform : Operation → Change Unit
  | load store root configPath => assign (store.loadConfig root configPath) fun loaded _ => loaded
  | resolve settings => assign settings.resolve fun resolved _ => resolved
  | setMarker marker => replaceMarker marker
  | setAdapter adapter => replaceAdapter adapter

/-- The settings from which an operation builds a configuration. Replacing a name builds none. -/
def settings? : Operation → Option Settings
  | load store root configPath => store.settingsFor? root configPath
  | resolve settings => some settings
  | setMarker _ | setAdapter _ => none

/-- An operation that fails leaves the configuration behind that it found. -/
theorem eq_of_perform_eq_error {config left : Config} {operation : Operation} {fault : Fault}
    (h : operation.perform.on config = (.error fault, left)) : left = config := by
  cases operation <;> exact eq_of_on_assign_eq_error h

/-- A new configuration is built on its settings, and a changed one still on those it had. -/
theorem builtOn_of_perform {config changed : Config} {origin : Settings} {operation : Operation}
    (hconfig : config.BuiltOn origin) (h : operation.perform.on config = (.ok (), changed)) :
    changed.BuiltOn (operation.settings?.getD origin) := by
  cases operation with
  | load store root configPath =>
      obtain ⟨loaded, hloaded, rfl⟩ := on_assign_eq_ok_iff.mp h
      obtain ⟨settings, built, hsettings, hbuilt, rfl⟩ :=
        Store.exists_settings_of_loadConfig hloaded
      -- The paths that loading fills in are not among the fields that count here.
      obtain ⟨hmarker, hadapter, hcustom⟩ := builtOn_of_resolve hbuilt
      rw [settings?, hsettings]
      exact ⟨hmarker, hadapter, hcustom⟩
  | resolve settings =>
      obtain ⟨resolved, hresolved, rfl⟩ := on_assign_eq_ok_iff.mp h
      exact builtOn_of_resolve hresolved
  | setMarker marker =>
      obtain ⟨hmarker, rfl⟩ := on_replaceMarker_eq_ok_iff.mp h
      exact ⟨hmarker, hconfig.adapter, hconfig.customExcludes⟩
  | setAdapter adapter =>
      obtain ⟨hadapter, rfl⟩ := on_replaceAdapter_eq_ok_iff.mp h
      exact ⟨hconfig.marker, hadapter, hconfig.customExcludes⟩

end Operation

/-- The configuration in use, together with the settings it was built from. -/
structure Session where
  config : Config
  origin : Settings

namespace Session

/-- The session after one more operation. It goes on with the configuration that the operation left
behind, which is built on new settings only if the operation succeeded. -/
def next (session : Session) (operation : Operation) : Session :=
  match operation.perform.on session.config with
  | (.ok (), changed) => ⟨changed, operation.settings?.getD session.origin⟩
  | (.error _, left) => ⟨left, session.origin⟩

/-- The session after a history of operations. -/
def run (session : Session) (history : List Operation) : Session :=
  history.foldl next session

theorem next_of_error {session : Session} {operation : Operation} {fault : Fault} {left : Config}
    (h : operation.perform.on session.config = (.error fault, left)) :
    session.next operation = session := by
  rw [next, h, Operation.eq_of_perform_eq_error h]

theorem builtOn_next {session : Session} (h : session.config.BuiltOn session.origin)
    (operation : Operation) :
    (session.next operation).config.BuiltOn (session.next operation).origin := by
  cases hperform : operation.perform.on session.config with
  | mk outcome left =>
      cases outcome with
      | error fault =>
          rw [next_of_error hperform]
          exact h
      | ok _ =>
          rw [next, hperform]
          exact Operation.builtOn_of_perform h hperform

theorem builtOn_run (session : Session) (h : session.config.BuiltOn session.origin)
    (history : List Operation) :
    (session.run history).config.BuiltOn (session.run history).origin := by
  induction history generalizing session with
  | nil => exact h
  | cons operation history ih => exact ih _ (builtOn_next h operation)

theorem run_concat (session : Session) (history : List Operation) (operation : Operation) :
    session.run (history ++ [operation]) = (session.run history).next operation := by
  rw [run, List.foldl_append]
  rfl

end Session

/-- The default configuration exists, and after any history that begins with it the marker in use
is an identifier, the adapter in use is a qualified name, and patterns to leave out count as
configured exactly when the settings it was built from have some. An operation that fails leaves
the configuration as it was, and with it the session; replacing a name succeeds exactly when the
name is usable, and changes that name only. -/
theorem session_run_builtOn :
    ∃ start, Config.defaults = .ok start ∧ ∀ history : List Operation,
      let session := Session.run ⟨start, {}⟩ history
      isIdentifier session.config.marker = true ∧
      IsQualifiedName session.config.adapter ∧
      (session.config.customExcludes = true ↔ session.origin.excludes ≠ []) ∧
      (∀ operation fault left, operation.perform.on session.config = (.error fault, left) →
        left = session.config ∧ Session.run ⟨start, {}⟩ (history ++ [operation]) = session) ∧
      (∀ marker changed, (Operation.setMarker marker).perform.on session.config = (.ok (), changed) ↔
        isIdentifier marker = true ∧ changed = { session.config with marker := marker }) ∧
      (∀ adapter changed,
        (Operation.setAdapter adapter).perform.on session.config = (.ok (), changed) ↔
          IsQualifiedName adapter ∧ changed = { session.config with adapter := adapter }) := by
  obtain ⟨start, hstart⟩ := exists_defaults
  refine ⟨start, hstart, fun history => ?_⟩
  intro session
  have hbuilt : session.config.BuiltOn session.origin :=
    Session.builtOn_run ⟨start, {}⟩ (builtOn_of_resolve hstart) history
  refine ⟨hbuilt.marker, hbuilt.adapter, hbuilt.customExcludes, ?_,
    fun marker changed => on_replaceMarker_eq_ok_iff,
    fun adapter changed => on_replaceAdapter_eq_ok_iff⟩
  intro operation fault left hfault
  refine ⟨Operation.eq_of_perform_eq_error hfault, ?_⟩
  rw [Session.run_concat, Session.next_of_error hfault]

end Config

end CachedCalls
