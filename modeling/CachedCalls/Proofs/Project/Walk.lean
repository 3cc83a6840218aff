/-
# Walking a file tree

A walk below a directory meets its entries, and those of the directories it may
enter, at any depth. The two walks of the program, the one that collects source
files and the one that looks at every path, are described by this one relation.
In a tree whose directories have distinct names no file is met twice, and the
path under which a file is met leads to it. So what is met depends on the tree
alone, not on the order in which directories list their entries.
-/

import CachedCalls.Project
import CachedCalls.Proofs.Files.Descent
import Mathlib.Data.List.Nodup

namespace CachedCalls

open Store (isSkippedDirectory)

namespace Entry

/-! ## Trees -/

/-- The tree is that of a file system: the entries of a directory have distinct
names, and each of these can be a name. -/
inductive WellFormed : Entry → Prop
  | file (contents : Contents) : WellFormed (file contents)
  | link (target : String) : WellFormed (link target)
  | directory {entries : List (String × Entry)} (nodup : (entries.map (·.1)).Nodup)
      (isEntryName : ∀ name entry, (name, entry) ∈ entries → Path.IsEntryName name)
      (inner : ∀ name entry, (name, entry) ∈ entries → WellFormed entry) :
      WellFormed (directory entries)

section

variable {entries : List (String × Entry)} (h : (Entry.directory entries).WellFormed)
include h

theorem WellFormed.nodup : (entries.map (·.1)).Nodup := by
  obtain - | - | ⟨hnodup, -, -⟩ := h
  exact hnodup

theorem WellFormed.isEntryName {name : String} {entry : Entry} (hmem : (name, entry) ∈ entries) :
    Path.IsEntryName name := by
  obtain - | - | ⟨-, hnames, -⟩ := h
  exact hnames name entry hmem

theorem WellFormed.inner {name : String} {entry : Entry} (hmem : (name, entry) ∈ entries) :
    entry.WellFormed := by
  obtain - | - | ⟨-, -, hinner⟩ := h
  exact hinner name entry hmem

end

/-- A property of directories follows their nesting. -/
theorem directory_induction {motive : List (String × Entry) → Prop}
    (step : ∀ entries, (∀ name inner, (name, directory inner) ∈ entries → motive inner) →
      motive entries) (entries : List (String × Entry)) : motive entries :=
  step entries fun _ inner hmem =>
    have : sizeOf inner < sizeOf entries := by
      have hsize := List.sizeOf_lt_of_mem hmem
      simp only [Prod.mk.sizeOf_spec, directory.sizeOf_spec] at hsize
      omega
    directory_induction step inner
termination_by sizeOf entries

theorem lookup_eq_some_iff_mem {entries : List (String × Entry)}
    (h : (entries.map (·.1)).Nodup) {name : String} {entry : Entry} :
    entries.lookup name = some entry ↔ (name, entry) ∈ entries := by
  induction entries with
  | nil => simp
  | cons first rest ih =>
      obtain ⟨present, other⟩ := first
      rw [List.map_cons, List.nodup_cons] at h
      rw [lookup_cons_eq, List.mem_cons, Prod.mk.injEq]
      split_ifs with hname
      · have hrest : (name, entry) ∉ rest :=
          fun hmem => h.1 (List.mem_map.mpr ⟨(name, entry), hmem, hname⟩)
        simp [hname ▸ hrest, hname, eq_comm]
      · simp [ih h.2, hname]

/-! ## Meeting entries -/

/-- A walk below a directory meets an entry below the given names. It enters
directories that are not passed over, and follows no links. -/
inductive Meets : List (String × Entry) → List String → Entry → Prop
  | here {entries : List (String × Entry)} {name : String} {entry : Entry}
      (mem : (name, entry) ∈ entries) : Meets entries [name] entry
  | inside {entries inner : List (String × Entry)} {name : String} {names : List String}
      {entry : Entry} (mem : (name, directory inner) ∈ entries)
      (entered : isSkippedDirectory name = false) (meets : Meets inner names entry) :
      Meets entries (name :: names) entry

theorem Meets.ne_nil {entries : List (String × Entry)} {names : List String} {entry : Entry}
    (h : Meets entries names entry) : names ≠ [] := by
  cases h <;> exact List.cons_ne_nil _ _

theorem Meets.isEntryName {entries : List (String × Entry)} {names : List String} {entry : Entry}
    (hwell : (directory entries).WellFormed) (h : Meets entries names entry) :
    ∀ name ∈ names, Path.IsEntryName name := by
  induction h with
  | here mem => simpa using hwell.isEntryName mem
  | inside mem _ _ ih =>
      rw [List.forall_mem_cons]
      exact ⟨hwell.isEntryName mem, ih (hwell.inner mem)⟩

theorem child?_directory {entries : List (String × Entry)}
    (hwell : (directory entries).WellFormed) {name : String} {entry : Entry} :
    (directory entries).child? name = some entry ↔ (name, entry) ∈ entries :=
  lookup_eq_some_iff_mem hwell.nodup

/-- What is met stands below the directory, under names that may be entered. -/
theorem meets_iff {entries : List (String × Entry)} (hwell : (directory entries).WellFormed)
    {names : List String} {entry : Entry} :
    Meets entries names entry ↔ names ≠ [] ∧ (directory entries).get? names = some entry ∧
      ∀ name ∈ names.dropLast, isSkippedDirectory name = false := by
  constructor
  · intro h
    refine ⟨h.ne_nil, ?_⟩
    induction h with
    | here hmem =>
        rw [get?_cons, (child?_directory hwell).mpr hmem]
        exact ⟨rfl, by simp⟩
    | inside hmem hskip hmeets ih =>
        obtain ⟨hget, hskips⟩ := ih (hwell.inner hmem)
        rw [get?_cons, (child?_directory hwell).mpr hmem, List.dropLast_cons_of_ne_nil hmeets.ne_nil,
          List.forall_mem_cons]
        exact ⟨hget, hskip, hskips⟩
  · rintro ⟨hne, hget, hskips⟩
    induction names generalizing entries with
    | nil => exact absurd rfl hne
    | cons name names ih =>
        obtain ⟨child, hchild, hget⟩ := Option.bind_eq_some_iff.mp hget
        have hmem := (child?_directory hwell).mp hchild
        cases names with
        | nil =>
            cases hget
            exact .here hmem
        | cons next names =>
            obtain ⟨_, hnext, -⟩ := Option.bind_eq_some_iff.mp hget
            obtain ⟨inner, rfl⟩ := exists_directory_of_child? hnext
            rw [List.dropLast_cons_of_ne_nil (List.cons_ne_nil _ _), List.forall_mem_cons] at hskips
            exact .inside hmem hskips.1
              (ih (hwell.inner hmem) (List.cons_ne_nil _ _) hget hskips.2)

theorem WellFormed.of_get? {root entry : Entry} {names : List String} (hwell : root.WellFormed)
    (h : root.get? names = some entry) : entry.WellFormed := by
  induction names generalizing root with
  | nil =>
      cases h
      exact hwell
  | cons name names ih =>
      obtain ⟨child, hchild, hget⟩ := Option.bind_eq_some_iff.mp h
      obtain ⟨entries, rfl⟩ := exists_directory_of_child? hchild
      exact ih (hwell.inner ((child?_directory hwell).mp hchild)) hget

theorem step_of_isEntryName {root : Entry} {here : List String} {piece : String}
    (h : Path.IsEntryName piece) :
    root.step here piece =
      match root.get? (here ++ [piece]) with
      | none => .arrive (.absent (here ++ [piece])) .notFound
      | some (file contents) => .arrive (.found (here ++ [piece]) (file contents)) .notADirectory
      | some (directory _) => .walk (here ++ [piece])
      | some (link target) => .through target := by
  obtain ⟨hspecial, -, -, hshort⟩ := h
  simp only [List.mem_cons, List.not_mem_nil, or_false, not_or] at hspecial
  have hstay : ¬ (piece = "" ∨ piece = ".") := not_or.mpr ⟨hspecial.1, hspecial.2.1⟩
  have hfits : ¬ nameLimit < Text.size piece := Nat.not_lt.mpr hshort
  cases hget : root.get? (here ++ [piece]) with
  | none => rw [step, if_neg hstay, if_neg hspecial.2.2, if_neg hfits, hget]
  | some entry =>
      cases entry <;> rw [step, if_neg hstay, if_neg hspecial.2.2, if_neg hfits, hget]

/-- Going down the names under which a file was met leads to it. -/
theorem locate_of_meets {root : Entry} {links : Nat} {place names : List String}
    {entries : List (String × Entry)} {contents : Contents} (hwell : (directory entries).WellFormed)
    (hplace : root.get? place = some (directory entries))
    (h : Meets entries names (file contents)) :
    root.locate links place names = .ok (.found (place ++ names) (file contents)) := by
  generalize hentry : file contents = entry at h
  induction h generalizing place with
  | @here entries name entry hmem =>
      subst hentry
      have hget : root.get? (place ++ [name]) = some (file contents) := by
        rw [get?_append, hplace, Option.bind_some, get?_cons, (child?_directory hwell).mpr hmem]
        rfl
      rw [locate_cons, step_of_isEntryName (hwell.isEntryName hmem), hget]
      rfl
  | @inside entries inner name names entry hmem _ _ ih =>
      have hget : root.get? (place ++ [name]) = some (directory inner) := by
        rw [get?_append, hplace, Option.bind_some, get?_cons, (child?_directory hwell).mpr hmem]
        rfl
      rw [locate_cons, step_of_isEntryName (hwell.isEntryName hmem), hget]
      have hrest := ih (hwell.inner hmem) hget hentry
      rw [List.append_assoc] at hrest
      exact hrest

/-! ## What the walks return -/

theorem visitedIn_eq_flatMap (path : String) (entries : List (String × Entry)) :
    visitedIn path entries =
      entries.flatMap fun entry => visitedAt (Path.join path entry.1) entry.1 entry.2 := by
  induction entries with
  | nil => simp [visitedIn]
  | cons first rest ih =>
      obtain ⟨name, entry⟩ := first
      rw [visitedIn, ih, List.flatMap_cons]

theorem sourcesIn_eq_flatMap (path : String) (entries : List (String × Entry)) :
    sourcesIn path entries =
      entries.flatMap fun entry => sourcesAt (Path.join path entry.1) entry.1 entry.2 := by
  induction entries with
  | nil => simp [sourcesIn]
  | cons first rest ih =>
      obtain ⟨name, entry⟩ := first
      rw [sourcesIn, ih, List.flatMap_cons]

theorem mem_visitedAt_iff {path name met : String} {entry : Entry} :
    met ∈ visitedAt path name entry ↔ met = path ∨
      ∃ inner, entry = directory inner ∧ isSkippedDirectory name = false ∧
        met ∈ visitedIn path inner := by
  cases entry with
  | file contents => simp [visitedAt]
  | link target => simp [visitedAt]
  | directory inner => cases hskip : isSkippedDirectory name <;> simp [visitedAt, hskip]

theorem mem_sourcesAt_iff {path name met : String} {entry : Entry} :
    met ∈ sourcesAt path name entry ↔
      (∃ contents, entry = file contents ∧ met = path ∧ Path.isSource path = true) ∨
      ∃ inner, entry = directory inner ∧ isSkippedDirectory name = false ∧
        met ∈ sourcesIn path inner := by
  cases entry with
  | file contents => cases hsource : Path.isSource path <;> simp [sourcesAt, hsource]
  | link target => simp [sourcesAt]
  | directory inner => cases hskip : isSkippedDirectory name <;> simp [sourcesAt, hskip]

/-- The paths that are looked at are those of the entries met. -/
theorem mem_visitedIn_iff {path met : String} {entries : List (String × Entry)} :
    met ∈ visitedIn path entries ↔
      ∃ names entry, Meets entries names entry ∧ met = Path.below path names := by
  induction entries using directory_induction generalizing path with
  | step entries ih =>
      rw [visitedIn_eq_flatMap, List.mem_flatMap]
      constructor
      · rintro ⟨⟨name, entry⟩, hmem, hmet⟩
        obtain rfl | ⟨inner, rfl, hskip, hmet⟩ := mem_visitedAt_iff.mp hmet
        · exact ⟨[name], entry, .here hmem, rfl⟩
        · obtain ⟨names, found, hmeets, rfl⟩ := (ih name inner hmem).mp hmet
          exact ⟨name :: names, found, .inside hmem hskip hmeets, rfl⟩
      · rintro ⟨_, entry, hmeets, rfl⟩
        cases hmeets with
        | here hmem => exact ⟨_, hmem, mem_visitedAt_iff.mpr (.inl rfl)⟩
        | inside hmem hskip hmeets =>
            exact ⟨_, hmem, mem_visitedAt_iff.mpr
              (.inr ⟨_, rfl, hskip, (ih _ _ hmem).mpr ⟨_, _, hmeets, rfl⟩⟩)⟩

/-- The source files that are collected are those met. -/
theorem mem_sourcesIn_iff {path met : String} {entries : List (String × Entry)} :
    met ∈ sourcesIn path entries ↔
      ∃ names contents, Meets entries names (file contents) ∧ met = Path.below path names ∧
        Path.isSource met = true := by
  induction entries using directory_induction generalizing path with
  | step entries ih =>
      rw [sourcesIn_eq_flatMap, List.mem_flatMap]
      constructor
      · rintro ⟨⟨name, entry⟩, hmem, hmet⟩
        obtain ⟨contents, rfl, rfl, hsource⟩ | ⟨inner, rfl, hskip, hmet⟩ :=
          mem_sourcesAt_iff.mp hmet
        · exact ⟨[name], contents, .here hmem, rfl, hsource⟩
        · obtain ⟨names, contents, hmeets, hpath, hsource⟩ := (ih name inner hmem).mp hmet
          exact ⟨name :: names, contents, .inside hmem hskip hmeets, hpath, hsource⟩
      · rintro ⟨_, contents, hmeets, rfl, hsource⟩
        cases hmeets with
        | here hmem =>
            exact ⟨_, hmem, mem_sourcesAt_iff.mpr (.inl ⟨contents, rfl, rfl, hsource⟩)⟩
        | inside hmem hskip hmeets =>
            exact ⟨_, hmem, mem_sourcesAt_iff.mpr
              (.inr ⟨_, rfl, hskip, (ih _ _ hmem).mpr ⟨_, _, hmeets, rfl, hsource⟩⟩)⟩

theorem exists_meets_of_mem_sourcesAt {path met : String} {entries : List (String × Entry)}
    {entry : String × Entry} (hmem : entry ∈ entries)
    (hmet : met ∈ sourcesAt (Path.join path entry.1) entry.1 entry.2) :
    ∃ names found, Meets entries (entry.1 :: names) found ∧
      met = Path.below path (entry.1 :: names) := by
  obtain ⟨name, entry⟩ := entry
  obtain ⟨contents, rfl, rfl, -⟩ | ⟨inner, rfl, hskip, hmet⟩ := mem_sourcesAt_iff.mp hmet
  · exact ⟨[], _, .here hmem, rfl⟩
  · obtain ⟨names, contents, hmeets, hpath, -⟩ := mem_sourcesIn_iff.mp hmet
    exact ⟨names, _, .inside hmem hskip hmeets, hpath⟩

/-- No source file is collected twice. -/
theorem nodup_sourcesIn {path : String} (hpath : path ≠ "") {entries : List (String × Entry)}
    (hwell : (directory entries).WellFormed) : (sourcesIn path entries).Nodup := by
  induction entries using directory_induction generalizing path with
  | step entries ih =>
      rw [sourcesIn_eq_flatMap, List.nodup_flatMap]
      constructor
      · rintro ⟨name, entry⟩ hmem
        have hjoin := Path.join_ne_empty hpath (hwell.isEntryName hmem).not_isAbsolute
        cases entry with
        | file contents => rw [sourcesAt]; split_ifs <;> simp
        | link target => simp [sourcesAt]
        | directory inner =>
            rw [sourcesAt]
            split_ifs
            · exact List.nodup_nil
            · exact ih name inner hmem hjoin (hwell.inner hmem)
      · -- Below different names of one directory there are no common paths.
        have hnodup := hwell.nodup
        rw [List.Nodup, List.pairwise_map] at hnodup
        apply hnodup.imp_of_mem
        intro a b ha hb hne met hmetA hmetB
        obtain ⟨namesA, _, hmeetsA, rfl⟩ := exists_meets_of_mem_sourcesAt ha hmetA
        obtain ⟨namesB, _, hmeetsB, heq⟩ := exists_meets_of_mem_sourcesAt hb hmetB
        have hsame := Path.below_injective hpath (hmeetsA.isEntryName hwell)
          (hmeetsB.isEntryName hwell) heq
        exact hne (List.cons.inj hsame).1

/-! ## Similar trees -/

/-- Two trees differ in nothing but the order in which directories list their
entries. -/
inductive Relisted : Entry → Entry → Prop
  | file (contents : Contents) : Relisted (file contents) (file contents)
  | link (target : String) : Relisted (link target) (link target)
  | directory {entries others : List (String × Entry)}
      (names : (others.map (·.1)).Perm (entries.map (·.1)))
      (inner : ∀ name entry other, (name, entry) ∈ entries → (name, other) ∈ others →
        Relisted entry other) :
      Relisted (directory entries) (directory others)

theorem Relisted.wellFormed {root other : Entry} (h : Relisted root other)
    (hwell : root.WellFormed) : other.WellFormed := by
  induction h with
  | file contents => exact .file contents
  | link target => exact .link target
  | @directory entries others hnames _ ih =>
      have hentry : ∀ name other, (name, other) ∈ others → ∃ entry, (name, entry) ∈ entries := by
        intro name other hmem
        simpa using hnames.subset (List.mem_map_of_mem hmem)
      refine .directory (hnames.nodup_iff.mpr hwell.nodup) ?_ ?_
      · intro name other hmem
        obtain ⟨entry, hentry⟩ := hentry name other hmem
        exact hwell.isEntryName hentry
      · intro name other hmem
        obtain ⟨entry, hentry⟩ := hentry name other hmem
        exact ih name entry other hentry hmem (hwell.inner hentry)

theorem Relisted.child? {root other : Entry} (h : Relisted root other) (hwell : root.WellFormed)
    (name : String) : Option.Rel Relisted (root.child? name) (other.child? name) := by
  cases h with
  | file contents => exact .none
  | link target => exact .none
  | @directory entries others hnames hinner =>
      have hwell' := (Relisted.directory hnames hinner).wellFormed hwell
      cases hchild : (Entry.directory entries).child? name with
      | some entry =>
          have hmem := (child?_directory hwell).mp hchild
          obtain ⟨other, hother⟩ : ∃ other, (name, other) ∈ others := by
            simpa using hnames.symm.subset (List.mem_map_of_mem hmem)
          rw [(child?_directory hwell').mpr hother]
          exact .some (hinner _ _ _ hmem hother)
      | none =>
          cases hchild' : (Entry.directory others).child? name with
          | none => exact .none
          | some other =>
              have hmem := (child?_directory hwell').mp hchild'
              obtain ⟨entry, hentry⟩ : ∃ entry, (name, entry) ∈ entries := by
                simpa using hnames.subset (List.mem_map_of_mem hmem)
              rw [(child?_directory hwell).mpr hentry] at hchild
              cases hchild

theorem Relisted.get? {root other : Entry} (h : Relisted root other) (hwell : root.WellFormed)
    (names : List String) : Option.Rel Relisted (root.get? names) (other.get? names) := by
  induction names generalizing root other with
  | nil => exact .some h
  | cons name names ih =>
      have hrel := h.child? hwell name
      rw [get?_cons, get?_cons]
      generalize hchild : root.child? name = child, other.child? name = seen at hrel
      cases hrel with
      | none => exact .none
      | some hrel =>
          obtain ⟨entries, rfl⟩ := exists_directory_of_child? hchild
          exact ih hrel (hwell.inner ((child?_directory hwell).mp hchild))

theorem Relisted.sameWays {root other : Entry} (h : Relisted root other)
    (hwell : root.WellFormed) : SameWays root other := by
  intro names
  have hrel := h.get? hwell names
  generalize root.get? names = entry, other.get? names = seen at hrel
  cases hrel with
  | none => rfl
  | some hrel => cases hrel <;> rfl

theorem Relisted.get?_eq_file_iff {root other : Entry} (h : Relisted root other)
    (hwell : root.WellFormed) {names : List String} {contents : Contents} :
    other.get? names = some (.file contents) ↔ root.get? names = some (.file contents) := by
  have hrel := h.get? hwell names
  generalize root.get? names = entry, other.get? names = seen at hrel
  cases hrel with
  | none => exact Iff.rfl
  | some hrel => cases hrel <;> simp

theorem mem_of_mem_setNamed {name other : String} {new entry : Entry}
    {entries : List (String × Entry)} (h : (other, entry) ∈ setNamed name new entries) :
    (other = name ∧ entry = new) ∨ (other, entry) ∈ entries := by
  induction entries with
  | nil => simpa [setNamed] using h
  | cons first rest ih =>
      obtain ⟨present, _⟩ := first
      rw [setNamed] at h
      split_ifs at h
      · rcases List.mem_cons.mp h with heq | hmem
        · exact .inl (Prod.mk.inj heq)
        · exact .inr (List.mem_cons_of_mem _ hmem)
      · rcases List.mem_cons.mp h with heq | hmem
        · exact .inr (heq ▸ List.mem_cons_self)
        · exact (ih hmem).imp_right (List.mem_cons_of_mem _)

/-- A tree stays well formed when the contents of a file are replaced. -/
theorem WellFormed.setAt {root : Entry} {names : List String} {old : Contents}
    (hwell : root.WellFormed) (h : root.get? names = some (.file old)) (new : Contents) :
    (root.setAt names (.file new)).WellFormed := by
  induction names generalizing root with
  | nil => exact .file new
  | cons name names ih =>
      obtain ⟨child, hchild, hget⟩ := Option.bind_eq_some_iff.mp h
      obtain ⟨entries, rfl⟩ := exists_directory_of_child? hchild
      have hmem := (child?_directory hwell).mp hchild
      rw [Entry.setAt, hchild, Option.getD_some]
      refine .directory ?_ ?_ ?_
      · rw [map_fst_setNamed hchild]
        exact hwell.nodup
      · intro other entry hother
        obtain ⟨rfl, -⟩ | hother := mem_of_mem_setNamed hother
        · exact hwell.isEntryName hmem
        · exact hwell.isEntryName hother
      · intro other entry hother
        obtain ⟨-, rfl⟩ | hother := mem_of_mem_setNamed hother
        · exact ih (hwell.inner hmem) hget
        · exact hwell.inner hother

/-- Where signposts agree, walks meet entries below the same names, and files
below the same names. -/
theorem Meets.of_sameWays {entries others : List (String × Entry)}
    (hwell : (directory entries).WellFormed) (hwell' : (directory others).WellFormed)
    (hways : SameWays (directory entries) (directory others)) {names : List String} {entry : Entry}
    (h : Meets entries names entry) :
    ∃ other, Meets others names other ∧ other.surface.signpost = entry.surface.signpost := by
  obtain ⟨hne, hget, hskips⟩ := (meets_iff hwell).mp h
  have hsign := hways names
  rw [hget, Option.map_some, Option.map_eq_some_iff] at hsign
  obtain ⟨other, hother, hsign⟩ := hsign
  exact ⟨other, (meets_iff hwell').mpr ⟨hne, hother, hskips⟩, hsign⟩

end Entry

end CachedCalls
