/-
# The root of a project

The root is searched for upward from the directory of a path, through the
directories that the path itself names. A path with double dots names directories
it does not lead into, and the search stops at those as well. So what is found is
at or above the path only if the path, behind the directory that was found, does not
leave it for good: it may climb out of it, but must come down into it again.
-/

import CachedCalls.CommandLine
import CachedCalls.Proofs.Files.Ancestors
import CachedCalls.Proofs.Files.Resolution
import CachedCalls.Proofs.Files.Writing

namespace CachedCalls

namespace Entry

/-- The names of the directory in question where a path leads: a directory itself,
or the one that holds a file. -/
def directoryNames (names : List String) : Entry → List String
  | file _ => names.dropLast
  | directory _ | link _ => names

/-- The path of that directory as it is written. -/
def directoryPath (path : String) : Entry → String
  | file _ => (Path.parent? path).getD path
  | directory _ | link _ => path

end Entry

namespace CommandLine

open CachedCalls.Path (components resolve ReturnsTo)

variable {store : Store} {path : String} {names : List String} {entry : Entry}

theorem isAbsolute_absolute (hcwd : Path.isAbsolute store.cwd = true) (path : String) :
    Path.isAbsolute (Path.absolute store.cwd path) = true := by
  rw [Path.absolute]
  split_ifs with hpath
  · exact hpath
  · rw [Path.isAbsolute_join (Path.ne_empty_of_isAbsolute hcwd) (by simpa using hpath), hcwd]

/-! ## Where a path leads -/

section Search

variable (hlinks : store.root.LinkFree) (hcwd : Path.isAbsolute store.cwd = true)
  (hpath : store.locate path = .ok (.found names entry))
include hlinks hcwd hpath

/-- Without links a path leads where it says, and only a file makes a difference
between a path and that of its directory. -/
theorem names_of_locate :
    (∃ entries, entry = .directory entries ∧ names = resolve (Path.absolute store.cwd path)) ∨
    ∃ contents text, entry = .file contents ∧
      components (Path.absolute store.cwd path) =
        components (entry.directoryPath (Path.absolute store.cwd path)) ++ [.name text] ∧
      names = resolve (entry.directoryPath (Path.absolute store.cwd path)) ++ [text] := by
  have habsolute := isAbsolute_absolute hcwd path
  obtain ⟨-, -, hlocate⟩ := Store.locate_eq_of_ok hpath
  obtain ⟨hnames, hentry⟩ := Entry.eq_follow_of_locate hlinks
    (hlinks.exists_entries.imp fun _ => congrArg some) hlocate
  rw [resolve, resolve, Path.components_of_isAbsolute habsolute]
  cases entry with
  | directory entries => exact .inl ⟨entries, rfl, hnames⟩
  | link target => exact absurd (Store.get?_of_locate hpath) (hlinks.get?_ne_link _ _)
  | file contents =>
      obtain ⟨_, hdirectory⟩ | ⟨inside, text, hinside⟩ := hentry
      · cases hdirectory
      · refine .inr ⟨contents, text, rfl, ?_, ?_⟩
        · rw [Entry.directoryPath, Path.components_parent? habsolute hinside]
          exact congrArg _ hinside
        · rw [hnames, hinside, Entry.directoryPath, Path.components_parent? habsolute hinside,
            Path.follow_append]
          rfl

theorem resolve_directoryPath :
    resolve (entry.directoryPath (Path.absolute store.cwd path)) = entry.directoryNames names := by
  obtain ⟨entries, rfl, hnames⟩ | ⟨contents, text, rfl, -, hnames⟩ :=
    names_of_locate hlinks hcwd hpath
  · exact hnames.symm
  · rw [Entry.directoryNames, hnames, List.dropLast_concat]

end Search

/-! ## The search -/

/-- The path at which the search begins. -/
def searchStart (store : Store) (path : String) : String :=
  let absolute := Path.absolute store.cwd path
  if store.isFile absolute then (Path.parent? absolute).getD absolute else absolute

theorem isAbsolute_searchStart (hcwd : Path.isAbsolute store.cwd = true) (path : String) :
    Path.isAbsolute (searchStart store path) = true := by
  have habsolute := isAbsolute_absolute hcwd path
  rw [searchStart]
  split_ifs
  · exact Path.isAbsolute_parent? habsolute
  · exact habsolute

/-- A marker of a project's root stands in a directory. -/
def holdsMarker (store : Store) (directory : String) : Bool :=
  rootMarkers.any fun marker => store.exists? (Path.join directory marker)

theorem projectRoot_eq (store : Store) (path : String) :
    projectRoot store path =
      ((Path.ancestors (searchStart store path)).find? (holdsMarker store)).getD
        (searchStart store path) := rfl

theorem projectRoot_mem_ancestors (store : Store) (path : String) :
    projectRoot store path ∈ Path.ancestors (searchStart store path) := by
  rw [projectRoot_eq]
  cases hfind : (Path.ancestors (searchStart store path)).find? (holdsMarker store) with
  | none => exact List.mem_cons_self
  | some directory => exact List.mem_of_find?_eq_some hfind

/-- Looking at a path and looking at the same path from the root cannot disagree
about the entry. -/
theorem exists_file_of_isFile (hcwd : Path.isAbsolute store.cwd = true)
    (hpath : store.locate path = .ok (.found names entry))
    (hfile : store.isFile (Path.absolute store.cwd path) = true) :
    ∃ contents, entry = .file contents := by
  have hpieces : store.pieces (Path.absolute store.cwd path) = store.pieces path := by
    rw [Store.pieces, Path.absolute, if_pos (isAbsolute_absolute hcwd path), Store.pieces]
  obtain ⟨-, -, hlocate⟩ := Store.locate_eq_of_ok hpath
  unfold Store.isFile Store.entry? at hfile
  cases hfull : store.locate (Path.absolute store.cwd path) with
  | error fault => simp [hfull] at hfile
  | ok place =>
      obtain ⟨-, -, hplace⟩ := Store.locate_eq_of_ok hfull
      rw [hpieces, hlocate] at hplace
      cases hplace
      rw [hfull] at hfile
      cases entry with
      | file contents => exact ⟨contents, rfl⟩
      | directory entries => cases hfile
      | link target => cases hfile

/-- The search begins at the directory of the path. At a file that can only be looked
at from the working directory, because its full path is too long, it begins at the
file. -/
theorem searchStart_eq (hcwd : Path.isAbsolute store.cwd = true)
    (hpath : store.locate path = .ok (.found names entry)) :
    searchStart store path = entry.directoryPath (Path.absolute store.cwd path) ∨
      ((∃ contents, entry = .file contents) ∧
        searchStart store path = Path.absolute store.cwd path) := by
  rw [searchStart]
  split_ifs with hfile
  · obtain ⟨contents, rfl⟩ := exists_file_of_isFile hcwd hpath hfile
    exact .inl rfl
  · cases entry with
    | directory entries => exact .inl rfl
    | file contents => exact .inr ⟨⟨contents, rfl⟩, rfl⟩
    | link target => exact .inl rfl

/-! ## The root and the path -/

/-- A written beginning of a path is at or above where the path leads if and only if
the rest of the path returns there. -/
theorem resolve_prefix_iff {directory other : String}
    (h : components other <+: components directory) :
    resolve other <+: resolve directory ↔
      ∃ below, components directory = components other ++ below ∧
        ReturnsTo (resolve other) below := by
  obtain ⟨below, hbelow⟩ := h
  rw [resolve, resolve, ← hbelow, Path.follow_append, Path.prefix_follow_iff]
  constructor
  · exact fun hreturns => ⟨below, rfl, hreturns⟩
  · rintro ⟨below', hsame, hreturns⟩
    rwa [List.append_cancel_left hsame]

/-- How far the root that is found holds the path. In a tree without links the root
is at or above the directory of the path if and only if the path of that directory,
behind the root, leads back to it: it climbs out of the root not at all, or comes
down again by the names it climbed. -/
theorem resolve_projectRoot_prefix_iff (store : Store) (path : String) (names : List String)
    (entry : Entry) (hlinks : store.root.LinkFree) (hcwd : Path.isAbsolute store.cwd = true)
    (hpath : store.locate path = .ok (.found names entry)) :
    resolve (projectRoot store path) <+: entry.directoryNames names ↔
      ∃ below, components (entry.directoryPath (Path.absolute store.cwd path)) =
          components (projectRoot store path) ++ below ∧
        ReturnsTo (resolve (projectRoot store path)) below := by
  have hprefix : components (projectRoot store path) <+: components (searchStart store path) :=
    Path.components_prefix_of_mem_ancestors (isAbsolute_searchStart hcwd path)
      (projectRoot_mem_ancestors store path)
  rw [← resolve_directoryPath hlinks hcwd hpath]
  obtain hstart | ⟨⟨contents, rfl⟩, hstart⟩ := searchStart_eq hcwd hpath
  · rw [hstart] at hprefix
    exact resolve_prefix_iff hprefix
  · obtain ⟨_, hdirectory, -⟩ | ⟨_, text, -, hfull, -⟩ := names_of_locate hlinks hcwd hpath
    · cases hdirectory
    rw [hstart, hfull, List.prefix_concat_iff] at hprefix
    obtain hwhole | hprefix := hprefix
    · -- The root is the file itself, which is neither above itself nor written above itself.
      constructor
      · intro hcontains
        have hlength := hcontains.length_le
        rw [resolve, hwhole, Path.follow_append, ← resolve] at hlength
        exact absurd hlength (by simp [Path.follow])
      · rintro ⟨below, hbelow, -⟩
        have hlength := congrArg List.length hbelow
        rw [hwhole] at hlength
        simp at hlength
    · exact resolve_prefix_iff hprefix

/-- A project in a directory, with another directory that a path may take a detour
through, and a file beside the project. -/
def detouredStore : Store where
  root := .directory [
    ("a", .directory [
      (".git", .directory []),
      ("b", .directory []),
      ("c", .directory [("f.cpp", .file (.text ""))])]),
    ("g.cpp", .file (.text ""))]
  cwd := "/"

theorem linkFree_detouredStore : detouredStore.root.LinkFree := by
  have hempty : ∀ names target, (Entry.directory []).get? names ≠ some (.link target) :=
    Entry.get?_directory_ne_link (List.forall_mem_nil _)
  refine ⟨⟨_, rfl⟩, Entry.get?_directory_ne_link (List.forall_mem_cons.mpr
    ⟨Entry.get?_directory_ne_link ?_, List.forall_mem_singleton.mpr (Entry.get?_file_ne_link _)⟩)⟩
  refine List.forall_mem_cons.mpr ⟨hempty, List.forall_mem_cons.mpr ⟨hempty,
    List.forall_mem_singleton.mpr (Entry.get?_directory_ne_link ?_)⟩⟩
  exact List.forall_mem_singleton.mpr (Entry.get?_file_ne_link _)

/-- The roots that are found through the project: as the path is written they are above
the file in either case. -/
theorem projectRoot_detouredStore :
    projectRoot detouredStore "a/../g.cpp" = "/a" ∧
      projectRoot detouredStore "a/b/../c/f.cpp" = "/a/b/.." := by
  simp only [projectRoot, Store.isFile, Store.exists?, Store.entry?,
    Store.locate_eq_stride linkFree_detouredStore]
  decide +kernel

/-- A detour through `b` that ends in the project again keeps the root above the path. -/
theorem resolve_projectRoot_prefix_iff_detour :
    (detouredStore.root.LinkFree ∧ Path.isAbsolute detouredStore.cwd = true ∧
      detouredStore.locate "a/b/../c/f.cpp" =
        .ok (.found ["a", "c", "f.cpp"] (.file (.text "")))) ∧
    resolve (projectRoot detouredStore "a/b/../c/f.cpp") <+: ["a", "c"] := by
  have hcwd : Path.isAbsolute detouredStore.cwd = true := by decide
  have hpath : detouredStore.locate "a/b/../c/f.cpp" =
      .ok (.found ["a", "c", "f.cpp"] (.file (.text ""))) := by
    have hpieces : detouredStore.pieces "a/b/../c/f.cpp" = ["", "a", "b", "..", "c", "f.cpp"] := by
      decide +kernel
    rw [Store.locate_eq_stride linkFree_detouredStore, hpieces, if_neg (by decide),
      if_neg (by decide), if_neg (by decide +kernel)]
    rfl
  refine ⟨⟨linkFree_detouredStore, hcwd, hpath⟩, ?_⟩
  refine (resolve_projectRoot_prefix_iff detouredStore "a/b/../c/f.cpp" _ _
    linkFree_detouredStore hcwd hpath).mpr ⟨[.name "c"], ?_, ?_⟩
  · rw [projectRoot_detouredStore.2]
    decide +kernel
  · rw [projectRoot_detouredStore.2]
    decide +kernel

/-- A file beside a project, reached through the project's directory: the root that is
found is the project's, which does not hold the file. -/
theorem projectRoot_beside_path :
    (detouredStore.root.LinkFree ∧ Path.isAbsolute detouredStore.cwd = true ∧
      detouredStore.locate "a/../g.cpp" = .ok (.found ["g.cpp"] (.file (.text "")))) ∧
    ¬ resolve (projectRoot detouredStore "a/../g.cpp") <+:
      (Entry.file (.text "")).directoryNames ["g.cpp"] := by
  refine ⟨⟨linkFree_detouredStore, by decide, ?_⟩, ?_⟩
  · have hpieces : detouredStore.pieces "a/../g.cpp" = ["", "a", "..", "g.cpp"] := by
      decide +kernel
    rw [Store.locate_eq_stride linkFree_detouredStore, hpieces, if_neg (by decide),
      if_neg (by decide), if_neg (by decide +kernel)]
    rfl
  · rw [projectRoot_detouredStore.1]
    decide +kernel

end CommandLine

end CachedCalls
