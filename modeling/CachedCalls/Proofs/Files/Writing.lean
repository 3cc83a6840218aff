/-
# Reading and writing through paths

A path is used in two ways, to read the file it leads to and to write to it. Both
resolve it first, and writing changes no signpost. So whatever was written
before, a path leads to the same place of the tree as it did at the start, and
the text that is read there is the one that was written there last.
-/

import CachedCalls.Proofs.Definition.Placement
import CachedCalls.Proofs.Files.Lookup

namespace CachedCalls

open Entry (surface)

namespace Store

/-- A path leads to the file at a place of the tree. -/
def LeadsToFile (store : Store) (path : String) (names : List String) : Prop :=
  ∃ contents, store.locate path = .ok (.found names (.file contents))

theorem LeadsToFile.unique {store : Store} {path : String} {names names' : List String}
    (h : store.LeadsToFile path names) (h' : store.LeadsToFile path names') : names = names' := by
  obtain ⟨_, hplace⟩ := h
  obtain ⟨_, hplace'⟩ := h'
  rw [hplace] at hplace'
  cases hplace'
  rfl

theorem get?_of_locate {store : Store} {path : String} {names : List String} {entry : Entry}
    (h : store.locate path = .ok (.found names entry)) : store.root.get? names = some entry := by
  unfold locate at h
  split_ifs at h
  exact Entry.get?_of_locate h

theorem LeadsToFile.exists_get? {store : Store} {path : String} {names : List String}
    (h : store.LeadsToFile path names) :
    ∃ contents, store.root.get? names = some (.file contents) := by
  obtain ⟨contents, hplace⟩ := h
  exact ⟨contents, get?_of_locate hplace⟩

/-! ## Stores that resolve paths alike -/

/-- Two stores have the same working directory and the same signposts. -/
structure Alike (store other : Store) : Prop where
  cwd_eq : other.cwd = store.cwd
  ways : store.root.SameWays other.root

theorem Alike.refl (store : Store) : store.Alike store :=
  ⟨rfl, .refl _⟩

theorem Alike.trans {store middle other : Store} (h : store.Alike middle)
    (h' : middle.Alike other) : store.Alike other :=
  ⟨h'.cwd_eq.trans h.cwd_eq, h.ways.trans h'.ways⟩

theorem Alike.symm {store other : Store} (h : store.Alike other) : other.Alike store :=
  ⟨h.cwd_eq.symm, h.ways.symm⟩

theorem Alike.locate_eq {store other : Store} (h : store.Alike other) (path : String) :
    other.locate path = (store.locate path).map (Entry.Place.seenIn other.root) := by
  unfold locate
  rw [pieces, h.cwd_eq, ← pieces]
  split_ifs
  · rfl
  · rfl
  · rfl
  · exact Entry.locate_of_sameWays h.ways _ _ _

theorem Alike.leadsToFile {store other : Store} (h : store.Alike other) {path : String}
    {names : List String} (hpath : store.LeadsToFile path names) :
    other.LeadsToFile path names := by
  obtain ⟨contents, hplace⟩ := hpath
  have hsign := h.ways names
  rw [get?_of_locate hplace, Option.map_some, Option.map_eq_some_iff] at hsign
  obtain ⟨entry, hentry, hsign⟩ := hsign
  cases entry with
  | directory entries => cases hsign
  | link target => cases hsign
  | file seen =>
      refine ⟨seen, ?_⟩
      rw [h.locate_eq, hplace]
      show Except.ok (Entry.Place.found names ((other.root.get? names).getD _)) = _
      rw [hentry, Option.getD_some]

theorem Alike.leadsToFile_iff {store other : Store} (h : store.Alike other) {path : String}
    {names : List String} : other.LeadsToFile path names ↔ store.LeadsToFile path names :=
  ⟨h.symm.leadsToFile, h.leadsToFile⟩

/-! ## Reading -/

theorem read_eq_ok_iff {store : Store} {path text : String} :
    store.read path = .ok text ↔
      ∃ names, store.LeadsToFile path names ∧ store.root.get? names = some (.file (.text text)) := by
  rw [read, bind_eq_ok_iff]
  constructor
  · rintro ⟨place, hplace, h⟩
    split at h
    · cases h
      exact ⟨_, ⟨_, hplace⟩, get?_of_locate hplace⟩
    all_goals cases h
  · rintro ⟨names, ⟨contents, hplace⟩, hfile⟩
    refine ⟨_, hplace, ?_⟩
    rw [get?_of_locate hplace] at hfile
    cases hfile
    rfl

/-! ## Writing -/

/-- The store with other contents in one file. -/
def withFile (store : Store) (names : List String) (contents : Contents) : Store :=
  { store with root := store.root.setAt names (.file contents) }

theorem alike_withFile {store : Store} {names : List String} {old : Contents}
    (h : store.root.get? names = some (.file old)) (new : Contents) :
    store.Alike (store.withFile names new) :=
  ⟨rfl, Entry.sameWays_setAt h new⟩

theorem surface_withFile {store : Store} {names : List String} {old : Contents}
    (h : store.root.get? names = some (.file old)) (new : Contents) (other : List String) :
    ((store.withFile names new).root.get? other).map surface =
      if other = names then some (.file new) else (store.root.get? other).map surface :=
  Entry.surface_setAt h new other

/-- Writing to one file leaves the others as they are. -/
theorem get?_withFile_eq_file_iff {store : Store} {names other : List String} {old : Contents}
    (h : store.root.get? names = some (.file old)) (new : Contents) (hne : other ≠ names)
    {contents : Contents} :
    (store.withFile names new).root.get? other = some (.file contents) ↔
      store.root.get? other = some (.file contents) := by
  rw [← Entry.map_surface_eq_file_iff, surface_withFile h, if_neg hne,
    Entry.map_surface_eq_file_iff]

theorem write_of_leadsToFile {store : Store} {path : String} {names : List String}
    (h : store.LeadsToFile path names) (text : String) :
    store.write path text = .ok (store.withFile names (.text text)) := by
  obtain ⟨contents, hplace⟩ := h
  rw [write, save, hplace]
  rfl

end Store

end CachedCalls
