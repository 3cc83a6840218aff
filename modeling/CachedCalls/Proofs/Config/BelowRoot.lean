/-
# Choosing files below the root of a project

Patterns see the part of a path behind the project's root. That part is made of what
stands between the slashes of the path below the root, without what never counts, so
neither the root nor the spelling of the path, nor the way the path came to be
absolute, takes part in the choice. A path without a root is seen in the same form.
-/

import CachedCalls.Config
import CachedCalls.Proofs.Files.Components

namespace CachedCalls

namespace Path

theorem stripComponents?_append (above below : List Component) :
    stripComponents? (above ++ below) above = some below := by
  induction above with
  | nil => cases below <;> rfl
  | cons component above ih => rw [List.cons_append, stripComponents?, if_pos rfl, ih]

end Path

namespace Config

open CachedCalls.Path (isAbsolute innerComponents ofComponents)

/-- A path that, once absolute, has the components of the root and something behind
them is seen as what is behind them. -/
theorem relativePath_of_components {config : Config} {root cwd path below : String}
    (hroot : config.projectRoot = some root)
    (h : Path.components (Path.absolute cwd path) =
      Path.components root ++ innerComponents below) :
    config.relativePath cwd path = ofComponents (innerComponents below) := by
  rw [relativePath, hroot, Option.bind_some, h, Path.stripComponents?_append, Option.getD_some,
    Path.clean_innerComponents]

theorem relativePath_join {config : Config} {root path : String} (cwd : String)
    (hconfig : config.projectRoot = some root) (hroot : isAbsolute root = true)
    (hpath : isAbsolute path = false) :
    config.relativePath cwd (Path.join root path) = ofComponents (innerComponents path) := by
  have habsolute : Path.absolute cwd (Path.join root path) = Path.join root path := by
    rw [Path.absolute, Path.isAbsolute_join (Path.ne_empty_of_isAbsolute hroot) hpath, if_pos hroot]
  exact relativePath_of_components hconfig (by rw [habsolute, Path.components_join hroot hpath])

theorem relativePath_of_cwd {config : Config} {cwd path : String}
    (hconfig : config.projectRoot = some cwd) (hcwd : isAbsolute cwd = true)
    (hpath : isAbsolute path = false) :
    config.relativePath cwd path = ofComponents (innerComponents path) := by
  have habsolute : Path.absolute cwd path = Path.join cwd path := by
    rw [Path.absolute, hpath, if_neg Bool.false_ne_true]
  exact relativePath_of_components hconfig (by rw [habsolute, Path.components_join hcwd hpath])

theorem relativePath_of_no_root {config : Config} {path : String} (cwd : String)
    (hconfig : config.projectRoot = none) (hpath : isAbsolute path = false) :
    config.relativePath cwd path = ofComponents (innerComponents path) := by
  rw [relativePath, hconfig, Option.bind_none, Option.getD_none,
    Path.clean_components_of_not_isAbsolute hpath]

/-- Configurations that differ in their roots only choose alike what they see alike. -/
theorem takes_congr {config other : Config} {cwd cwd' path path' : String}
    (hincludes : config.includes = other.includes) (hexcludes : config.excludes = other.excludes)
    (h : config.relativePath cwd path = other.relativePath cwd' path') :
    config.takes cwd path = other.takes cwd' path' := by
  rw [takes, takes, hincludes, hexcludes, h]

/-- The choice of files depends on the path below the root of the project only: it is
the same below every root, without a root, and for the relative path itself when the
root is the working directory. -/
theorem takes_below_root (config : Config) (root other working cwd cwd' cwd'' path : String)
    (hroot : isAbsolute root = true) (hother : isAbsolute other = true)
    (hworking : isAbsolute working = true) (hpath : isAbsolute path = false) :
    let under (root : Option String) : Config := { config with projectRoot := root }
    (under (some root)).takes cwd (Path.join root path) =
        (under (some other)).takes cwd' (Path.join other path) ∧
      (under (some root)).takes cwd (Path.join root path) = (under none).takes cwd'' path ∧
      (under (some root)).takes cwd (Path.join root path) =
        (under (some working)).takes working path := by
  intro under
  have hjoin : (under (some root)).relativePath cwd (Path.join root path) =
      ofComponents (innerComponents path) := relativePath_join cwd rfl hroot hpath
  refine ⟨takes_congr rfl rfl ?_, takes_congr rfl rfl ?_, takes_congr rfl rfl ?_⟩
  · rw [hjoin, relativePath_join cwd' rfl hother hpath]
  · rw [hjoin, relativePath_of_no_root cwd'' rfl hpath]
  · rw [hjoin, relativePath_of_cwd rfl hworking hpath]

/-- A configuration that leaves out what is built. -/
def withoutBuild : Config where
  includes := none
  excludes := [⟨"**/build/**", [.leading, .literal 'b', .literal 'u', .literal 'i', .literal 'l',
    .literal 'd', .trailing]⟩]
  customExcludes := true
  marker := defaultMarker
  adapter := defaultAdapter
  configPath := none
  projectRoot := none

/-- A project below a directory of builds is chosen from like any other. -/
theorem takes_below_root_withoutBuild :
    (isAbsolute "/build/p" = true ∧ isAbsolute "//q/" = true ∧ isAbsolute "/w" = true ∧
      isAbsolute "./src//a.cpp/" = false) ∧
    let under (root : Option String) : Config := { withoutBuild with projectRoot := root }
    (under (some "/build/p")).takes "/" (Path.join "/build/p" "./src//a.cpp/") =
        (under (some "//q/")).takes "/build" (Path.join "//q/" "./src//a.cpp/") ∧
      (under (some "/build/p")).takes "/" (Path.join "/build/p" "./src//a.cpp/") =
        (under none).takes "/build" "./src//a.cpp/" ∧
      (under (some "/build/p")).takes "/" (Path.join "/build/p" "./src//a.cpp/") =
        (under (some "/w")).takes "/w" "./src//a.cpp/" :=
  ⟨by decide, takes_below_root withoutBuild "/build/p" "//q/" "/w" "/" "/build" "/build"
    "./src//a.cpp/" (by decide) (by decide) (by decide) (by decide)⟩

-- What is left out without a root is taken below it.
example : withoutBuild.takes "/" "/build/p/src/a.cpp" = false ∧
    ({ withoutBuild with projectRoot := some "/build/p" } : Config).takes "/" "/build/p/src/a.cpp" =
      true := by
  decide +kernel

end Config

end CachedCalls
