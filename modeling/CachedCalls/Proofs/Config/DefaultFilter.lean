/-
# What is left out by default

Five patterns leave out version control, build and vendored trees. A path is left out
exactly if one of its components other than the last is the name of such a tree: names
that merely contain one of these words, and files that are called like such a tree,
are taken.
-/

import CachedCalls.Proofs.Config.History
import CachedCalls.Proofs.Glob.Below

namespace CachedCalls

namespace Config

open Glob (below)

/-- The patterns of what is left out by default. -/
def defaultGlobs : List Glob :=
  [⟨"**/.git/**", below ".git".toList []⟩, ⟨"**/build/**", below "build".toList []⟩,
    ⟨"**/cmake-build-*/**", below "cmake-build-".toList [.anyBytes]⟩,
    ⟨"**/vendor/**", below "vendor".toList []⟩, ⟨"**/third_party/**", below "third_party".toList []⟩]

theorem mapM_parse_defaultExcludes :
    (defaultExcludes.mapM fun pattern => (Glob.parse pattern).mapError (Fault.badPattern pattern)) =
      .ok defaultGlobs := by
  have hgit : Glob.parse "**/.git/**" = .ok ⟨"**/.git/**", below ".git".toList []⟩ :=
    Glob.parse_below ".git" (by decide)
  have hbuild : Glob.parse "**/build/**" = .ok ⟨"**/build/**", below "build".toList []⟩ :=
    Glob.parse_below "build" (by decide)
  have hcmake : Glob.parse "**/cmake-build-*/**" =
      .ok ⟨"**/cmake-build-*/**", below "cmake-build-".toList [.anyBytes]⟩ :=
    Glob.parse_belowStart "cmake-build-" (by decide)
  have hvendor : Glob.parse "**/vendor/**" = .ok ⟨"**/vendor/**", below "vendor".toList []⟩ :=
    Glob.parse_below "vendor" (by decide)
  have hparty : Glob.parse "**/third_party/**" =
      .ok ⟨"**/third_party/**", below "third_party".toList []⟩ :=
    Glob.parse_below "third_party" (by decide)
  simp only [defaultExcludes, List.mapM_cons, List.mapM_nil, hgit, hbuild, hcmake, hvendor, hparty]
  rfl

theorem mapM_parse_of_parsePatterns {patterns : List String} {globs : List Glob}
    (h : parsePatterns patterns = .ok globs) :
    (patterns.mapM fun pattern => (Glob.parse pattern).mapError (Fault.badPattern pattern)) =
      .ok globs := by
  rw [parsePatterns, bind_eq_ok_iff] at h
  obtain ⟨read, hread, h⟩ := h
  rw [bind_eq_ok_iff] at h
  obtain ⟨-, -, h⟩ := h
  rw [hread, pure_eq_ok_iff.mp h]

theorem defaults_eq : defaults = .ok (Settings.configWith {} none defaultGlobs) := by
  obtain ⟨config, hconfig⟩ := exists_defaults
  have h := hconfig
  have hincludes : ({} : Settings).includes.isEmpty = true := rfl
  rw [defaults, Settings.resolve, bind_eq_ok_iff] at h
  obtain ⟨⟨⟩, -, h⟩ := h
  simp only [hincludes, if_true, bind_eq_ok_iff, pure_eq_ok_iff] at h
  obtain ⟨includes, rfl, globs, hglobs, rfl⟩ := h
  obtain rfl : defaultGlobs = globs := Except.ok.inj
    (mapM_parse_defaultExcludes.symm.trans (mapM_parse_of_parsePatterns hglobs))
  exact hconfig

/-! ## The directories -/

/-- A directory is left out by default. -/
def IsLeftOut (name : String) : Prop :=
  name ∈ [".git", "build", "vendor", "third_party"] ∨ "cmake-build-".toList <+: name.toList

instance (name : String) : Decidable (IsLeftOut name) :=
  inferInstanceAs (Decidable (_ ∨ _))

theorem any_isMatch_defaultGlobs_iff (path : String) :
    defaultGlobs.any (·.isMatch path) = true ↔
      ∃ piece ∈ (Path.pieces path.toList).dropLast, IsLeftOut (String.ofList piece) := by
  have hname : ∀ word : String, (∃ piece ∈ (Path.pieces path.toList).dropLast,
      String.ofList piece = word) ↔ word.toList ∈ (Path.pieces path.toList).dropLast := by
    intro word
    constructor
    · rintro ⟨piece, hmem, rfl⟩
      rwa [String.toList_ofList]
    · exact fun hmem => ⟨_, hmem, String.ofList_toList⟩
  simp only [defaultGlobs, List.any_cons, List.any_nil, Bool.or_false, Bool.or_eq_true]
  rw [Glob.isMatch_below_name_iff (by decide) (by decide),
    Glob.isMatch_below_name_iff (by decide) (by decide),
    Glob.isMatch_below_start_iff (by decide) (by decide),
    Glob.isMatch_below_name_iff (by decide) (by decide),
    Glob.isMatch_below_name_iff (by decide) (by decide), ← hname, ← hname, ← hname, ← hname]
  simp only [IsLeftOut, List.mem_cons, List.not_mem_nil, or_false, String.toList_ofList, and_or_left,
    exists_or]
  exact iff_of_eq (by ac_rfl)

theorem takes_configWith_nil (globs : List Glob) (cwd path : String) :
    (Settings.configWith {} none globs).takes cwd path =
      !globs.any (·.isMatch (Path.clean (Path.components path))) := by
  show (if globs.any (·.isMatch (Path.clean (Path.components path))) = true then false else true) = _
  cases globs.any (·.isMatch (Path.clean (Path.components path))) <;> rfl

/-- By default exactly those paths are left out that lead through a directory for
version control, for builds or for code of others: one of their components other than
the last is the name of such a directory. -/
theorem takes_defaults_eq_false_iff :
    ∃ config, defaults = .ok config ∧ ∀ cwd path, config.takes cwd path = false ↔
      ∃ name, .name name ∈ ((Path.components path).filter (· ≠ .current)).dropLast ∧
        IsLeftOut name := by
  refine ⟨_, defaults_eq, fun cwd path => ?_⟩
  rw [takes_configWith_nil, Bool.not_eq_false', any_isMatch_defaultGlobs_iff]
  have hpiece : ∀ piece, IsLeftOut (String.ofList piece) →
      (piece ∈ (Path.pieces (Path.clean (Path.components path)).toList).dropLast ↔
        .name (String.ofList piece) ∈
          ((Path.components path).filter (· ≠ .current)).dropLast) := by
    intro piece hleft
    refine Path.mem_dropLast_pieces_clean_iff path ?_ ?_
    · rintro rfl
      exact absurd hleft (by decide)
    · rintro rfl
      exact absurd hleft (by decide)
  constructor
  · rintro ⟨piece, hmem, hleft⟩
    exact ⟨_, (hpiece piece hleft).mp hmem, hleft⟩
  · rintro ⟨name, hmem, hleft⟩
    rw [← String.ofList_toList (s := name)] at hmem hleft
    exact ⟨name.toList, (hpiece _ hleft).mpr hmem, hleft⟩

end Config

end CachedCalls
