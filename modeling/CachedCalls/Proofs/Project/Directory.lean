/-
# Reports of a directory

Wrapping a directory is wrapping its files one by one: the reports are those of
the source files that a walk meets and the configuration takes, each once and in
the order of their names. They do not depend on the order in which directories
list their entries, and a file that cannot be read takes away nothing but its own
report.

There is one way to fail. The walk looks at every path it meets, and a path may
be too long for that. The entry there is not passed over like a file that cannot be
read: the walk ends, and there are no reports at all, not even of the files whose
paths are short enough.
-/

import CachedCalls.Proofs.Project.Reports
import CachedCalls.Proofs.Project.Walk
import CachedCalls.Proofs.Sorting

namespace CachedCalls

open Entry (Meets)

/-! ## Order -/

/-- Reports of different files are put in a strict order. -/
theorem FileReport.pairwise_sort {reports : List FileReport}
    (h : reports.Pairwise fun a b => a.file ≠ b.file) :
    (FileReport.sort reports).Pairwise fun a b => a.file < b.file := by
  have htrans : ∀ a b c : FileReport,
      a.precedes b = true → b.precedes c = true → a.precedes c = true := by
    intro a b c hab hbc
    simp only [precedes, decide_eq_true_eq] at *
    exact String.le_trans hab hbc
  have htotal : ∀ a b : FileReport, (a.precedes b || b.precedes a) = true := by
    intro a b
    simpa [precedes] using String.le_total a.file b.file
  refine (pairwise_mergeSort_of_ties precedes htrans htotal h).imp ?_
  rintro a b ⟨hle, htie⟩
  simp only [precedes, decide_eq_true_eq] at hle htie
  -- If it were not strict, the names would be the same.
  by_contra hlt
  have hge : b.file ≤ a.file := String.not_lt.mp hlt
  exact htie hge (String.le_antisymm hle hge)

namespace Store

variable {store other : Store} {parser : Parser} {config : Config} {path : String}
  {place : List String} {entries : List (String × Entry)}

theorem pairwise_wrapPath {files : List String} {reports : List FileReport}
    (hfiles : store.sources path = .ok files) (hnodup : files.Nodup)
    (h : store.wrapPath parser config path = .ok reports) :
    reports.Pairwise fun a b => a.file < b.file := by
  obtain ⟨files', hfiles', rfl⟩ := wrapPath_eq_ok_iff.mp h
  rw [hfiles] at hfiles'
  cases hfiles'
  apply FileReport.pairwise_sort
  rw [List.pairwise_filterMap]
  refine (hnodup.sublist List.filter_sublist).imp ?_
  intro a b hne reportA hreportA reportB hreportB
  rw [file_of_wrapFile (toOption_eq_some_iff.mp hreportA),
    file_of_wrapFile (toOption_eq_some_iff.mp hreportB)]
  exact hne

/-! ## Files below a directory -/

/-- The path under which a file is met leads to it. -/
theorem locate_below_of_meets (hwell : store.root.WellFormed)
    (hpath : store.locate path = .ok (.found place (.directory entries))) {names : List String}
    {contents : Contents} (hmeets : Meets entries names (.file contents))
    (hshort : Text.size (Path.below path names) ≤ pathLimit) :
    store.locate (Path.below path names) = .ok (.found (place ++ names) (.file contents)) := by
  have hplace := get?_of_locate hpath
  have hwell' := hwell.of_get? hplace
  obtain ⟨links, hlinks⟩ :=
    locate_below hpath (hmeets.isEntryName hwell') hmeets.ne_nil hshort
  rw [hlinks]
  exact Entry.locate_of_meets hwell' hplace hmeets

/-- All paths that a walk below a directory looks at can be looked at. -/
def CanWalk (path : String) (entries : List (String × Entry)) : Prop :=
  ∀ names entry, Meets entries names entry → Text.size (Path.below path names) ≤ pathLimit

theorem canWalk_iff : CanWalk path entries ↔
    ∀ met ∈ Entry.visitedIn path entries, Text.size met ≤ pathLimit := by
  constructor
  · intro h met hmet
    obtain ⟨names, entry, hmeets, rfl⟩ := Entry.mem_visitedIn_iff.mp hmet
    exact h names entry hmeets
  · intro h names entry hmeets
    exact h _ (Entry.mem_visitedIn_iff.mpr ⟨names, entry, hmeets, rfl⟩)

theorem entryAt_of_locate {entry : Entry} (h : store.locate path = .ok (.found place entry)) :
    store.entry? path = some entry := by
  unfold Store.entry?
  rw [h]

theorem sources_of_canWalk (hpath : store.locate path = .ok (.found place (.directory entries)))
    (h : CanWalk path entries) :
    store.sources path = .ok (Path.sort (Entry.sourcesIn path entries)) := by
  have hentry := entryAt_of_locate hpath
  have hfind : (Entry.visitedIn path entries).find?
      (fun met => decide (pathLimit < Text.size met)) = none := by
    simpa using canWalk_iff.mp h
  rw [sources, hentry]
  simp only [hfind]

theorem wrapPath_of_not_canWalk
    (hpath : store.locate path = .ok (.found place (.directory entries)))
    (h : ¬ CanWalk path entries) :
    ∃ names entry, Meets entries names entry ∧ pathLimit < Text.size (Path.below path names) ∧
      store.wrapPath parser config path = .error
        (.during s!"Failed to read metadata: {Path.below path names}" (.access .nameTooLong)) := by
  have hentry := entryAt_of_locate hpath
  cases hfind : (Entry.visitedIn path entries).find?
      (fun met => decide (pathLimit < Text.size met)) with
  | none => exact absurd (canWalk_iff.mpr (by simpa using hfind)) h
  | some met =>
      obtain ⟨names, entry, hmeets, rfl⟩ :=
        Entry.mem_visitedIn_iff.mp (List.mem_of_find?_eq_some hfind)
      refine ⟨names, entry, hmeets, by simpa using List.find?_some hfind, ?_⟩
      rw [wrapPath, sources, hentry]
      simp only [hfind]
      rfl

/-- A source file that a walk below a directory meets and the configuration
takes. -/
def Selects (store : Store) (config : Config) (path : String) (entries : List (String × Entry))
    (names : List String) : Prop :=
  (∃ contents, Meets entries names (.file contents)) ∧
    Path.isSource (Path.below path names) = true ∧
    config.takes store.cwd (Path.below path names) = true

/-! ## The same walk in another store -/

theorem exists_locate_of_alike (halike : store.Alike other)
    (hpath : store.locate path = .ok (.found place (.directory entries))) :
    ∃ others, other.locate path = .ok (.found place (.directory others)) ∧
      (Entry.directory entries).SameWays (.directory others) := by
  have hplace := get?_of_locate hpath
  have hsign := halike.ways place
  rw [hplace, Option.map_some, Option.map_eq_some_iff] at hsign
  obtain ⟨entry, hentry, hsign⟩ := hsign
  cases entry with
  | file contents => cases hsign
  | link target => cases hsign
  | directory others =>
      refine ⟨others, ?_, fun names => ?_⟩
      · rw [halike.locate_eq, hpath]
        show Except.ok (Entry.Place.found place ((other.root.get? place).getD _)) = _
        rw [hentry, Option.getD_some]
      · have hways := halike.ways (place ++ names)
        rw [Entry.get?_append, Entry.get?_append, hplace, hentry] at hways
        exact hways

section

variable {others : List (String × Entry)} (hwell : (Entry.directory entries).WellFormed)
  (hwell' : (Entry.directory others).WellFormed)
  (hways : (Entry.directory entries).SameWays (.directory others))
include hwell hwell' hways

theorem CanWalk.of_sameWays (h : CanWalk path entries) : CanWalk path others := by
  intro names other hmeets
  obtain ⟨entry, hmeets, -⟩ := hmeets.of_sameWays hwell' hwell hways.symm
  exact h names entry hmeets

theorem selects_of_sameWays {names : List String} (h : store.Selects config path entries names) :
    store.Selects config path others names := by
  obtain ⟨⟨contents, hmeets⟩, hsource, htakes⟩ := h
  obtain ⟨seen, hmeets, hsign⟩ := hmeets.of_sameWays hwell hwell' hways
  cases seen with
  | file contents => exact ⟨⟨contents, hmeets⟩, hsource, htakes⟩
  | directory entries => cases hsign
  | link target => cases hsign

end

/-- The reports of a directory, in any store that sends paths to the same places:
the files are selected alike, and each report is the one of that store. -/
theorem wrapPath_of_alike (hwell : store.root.WellFormed) (hwell' : other.root.WellFormed)
    (halike : store.Alike other)
    (hpath : store.locate path = .ok (.found place (.directory entries)))
    (hwalk : CanWalk path entries) :
    ∃ reports, other.wrapPath parser config path = .ok reports ∧
      (reports.Pairwise fun a b => a.file < b.file) ∧
      ∀ report, report ∈ reports ↔ ∃ names, store.Selects config path entries names ∧
        other.wrapFile parser config (Path.below path names) = .ok report := by
  obtain ⟨others, hpath', hways⟩ := exists_locate_of_alike halike hpath
  have hentries := hwell.of_get? (get?_of_locate hpath)
  have hothers := hwell'.of_get? (get?_of_locate hpath')
  have hfiles := sources_of_canWalk hpath' (hwalk.of_sameWays hentries hothers hways)
  have hnodup : (Path.sort (Entry.sourcesIn path others)).Nodup :=
    (List.mergeSort_perm _ _).nodup_iff.mpr
      (Entry.nodup_sourcesIn (locate_eq_of_ok hpath).2.1 hothers)
  obtain ⟨reports, hreports⟩ : ∃ reports, other.wrapPath parser config path = .ok reports :=
    ⟨_, wrapPath_eq_ok_iff.mpr ⟨_, hfiles, rfl⟩⟩
  refine ⟨reports, hreports, pairwise_wrapPath hfiles hnodup hreports, fun report => ?_⟩
  rw [mem_wrapPath_iff hfiles hreports]
  constructor
  · rintro ⟨file, hfile, htakes, hreport⟩
    obtain ⟨names, contents, hmeets, rfl, hsource⟩ :=
      Entry.mem_sourcesIn_iff.mp (List.mem_mergeSort.mp hfile)
    rw [halike.cwd_eq] at htakes
    exact ⟨names, selects_of_sameWays hothers hentries hways.symm
      ⟨⟨contents, hmeets⟩, hsource, htakes⟩, hreport⟩
  · rintro ⟨names, hselects, hreport⟩
    obtain ⟨⟨contents, hmeets⟩, hsource, htakes⟩ :=
      selects_of_sameWays hentries hothers hways hselects
    rw [← halike.cwd_eq] at htakes
    have hfile := Entry.mem_sourcesIn_iff.mpr ⟨names, contents, hmeets, rfl, hsource⟩
    exact ⟨_, List.mem_mergeSort.mpr hfile, htakes, hreport⟩

/-- A report depends on nothing but the text that its path leads to. -/
theorem wrapFile_iff_of_alike (halike : store.Alike other) {file : String}
    (hfile : ∀ names, store.LeadsToFile file names → ∀ contents,
      other.root.get? names = some (.file contents) ↔
        store.root.get? names = some (.file contents)) {report : FileReport} :
    other.wrapFile parser config file = .ok report ↔
      store.wrapFile parser config file = .ok report := by
  rw [wrapFile_eq_ok_iff, wrapFile_eq_ok_iff]
  simp only [halike.leadsToFile_iff]
  constructor
  · rintro ⟨names, text, outcome, hleads, htext, hrest⟩
    exact ⟨names, text, outcome, hleads, (hfile names hleads _).mp htext, hrest⟩
  · rintro ⟨names, text, outcome, hleads, htext, hrest⟩
    exact ⟨names, text, outcome, hleads, (hfile names hleads _).mpr htext, hrest⟩

/-- Reports do not depend on the order in which directories list their entries. -/
theorem wrapPath_of_relisted (hwell : store.root.WellFormed) (hcwd : other.cwd = store.cwd)
    (hrelisted : store.root.Relisted other.root)
    (hpath : store.locate path = .ok (.found place (.directory entries)))
    (hwalk : CanWalk path entries) {reports : List FileReport}
    (h : store.wrapPath parser config path = .ok reports) :
    other.wrapPath parser config path = .ok reports := by
  have halike : store.Alike other := ⟨hcwd, hrelisted.sameWays hwell⟩
  obtain ⟨reports', hreports', hsorted', hmem'⟩ := wrapPath_of_alike hwell
    (hrelisted.wellFormed hwell) halike hpath hwalk
  obtain ⟨_, hreports, hsorted, hmem⟩ := wrapPath_of_alike hwell hwell (.refl store) hpath hwalk
  rw [h] at hreports
  cases hreports
  rw [hreports']
  congr 1
  refine eq_of_pairwise_of_mem_iff (fun a b => String.lt_asymm) hsorted' hsorted fun report => ?_
  rw [hmem', hmem]
  simp only [wrapFile_iff_of_alike halike fun _ _ _ => hrelisted.get?_eq_file_iff hwell]

/-- The contents of one file have no influence on the reports of others. -/
theorem mem_wrapPath_withFile_iff (hwell : store.root.WellFormed)
    (hpath : store.locate path = .ok (.found place (.directory entries)))
    (hwalk : CanWalk path entries) {reports : List FileReport}
    (h : store.wrapPath parser config path = .ok reports) {names : List String} {old : Contents}
    (hmeets : Meets entries names (.file old)) (new : Contents) :
    ∃ others, (store.withFile (place ++ names) new).wrapPath parser config path = .ok others ∧
      ∀ report, report.file ≠ Path.below path names → (report ∈ others ↔ report ∈ reports) := by
  have hget := get?_of_locate
    (locate_below_of_meets hwell hpath hmeets (hwalk names _ hmeets))
  have halike := alike_withFile hget new
  obtain ⟨others, hothers, -, hmem'⟩ :=
    wrapPath_of_alike hwell (hwell.setAt hget new) halike hpath hwalk
  obtain ⟨_, hreports, -, hmem⟩ := wrapPath_of_alike hwell hwell (.refl store) hpath hwalk
  rw [h] at hreports
  cases hreports
  refine ⟨others, hothers, fun report hother => ?_⟩
  rw [hmem', hmem]
  -- Another path that was met leads to another place, which the new contents do not touch.
  have hsame : ∀ names', store.Selects config path entries names' →
      Path.below path names' ≠ Path.below path names →
      ((store.withFile (place ++ names) new).wrapFile parser config (Path.below path names') =
        .ok report ↔ store.wrapFile parser config (Path.below path names') = .ok report) := by
    rintro names' ⟨⟨contents, hmeets'⟩, -, -⟩ hne
    refine wrapFile_iff_of_alike halike fun place' hplace' _ => ?_
    have hlocate := locate_below_of_meets hwell hpath hmeets' (hwalk names' _ hmeets')
    rw [← LeadsToFile.unique ⟨contents, hlocate⟩ hplace']
    refine get?_withFile_eq_file_iff hget new fun heq => hne ?_
    rw [List.append_cancel_left_eq] at heq
    rw [heq]
  constructor
  · rintro ⟨names', hselects, hfile⟩
    have hne := file_of_wrapFile hfile ▸ hother
    exact ⟨names', hselects, (hsame names' hselects hne).mp hfile⟩
  · rintro ⟨names', hselects, hfile⟩
    have hne := file_of_wrapFile hfile ▸ hother
    exact ⟨names', hselects, (hsame names' hselects hne).mpr hfile⟩

/-! ## A directory of each kind of entry -/

/-- A directory with two sources, a source that is no text, a directory that is
passed over and a link. -/
def mixedEntries : List (String × Entry) :=
  [("long.cpp", .file (.text "")), ("a.h", .file (.text "")), ("b.cc", .file (.binary [0xFF])),
    ("build", .directory [("c.cpp", .file (.text ""))]), ("to.h", .link "a.h")]

def mixedStore : Store :=
  ⟨.directory mixedEntries, "/"⟩

/-- A parser that finds nothing in any text. -/
def rootOnly : Parser := fun _ => .node ⟨"translation_unit", none, ⟨0, 0⟩, true, false⟩ []

/-- A configuration that leaves out only the path `x`. -/
def leavesOutX : Config :=
  ⟨none, [⟨"x", [.literal 'x']⟩], true, "memoize", "memoize", none, none⟩

theorem wellFormed_mixedStore : mixedStore.root.WellFormed := by
  refine .directory (by decide) ?_ ?_
  · simp only [mixedEntries, List.mem_cons, List.not_mem_nil, or_false, Prod.mk.injEq]
    rintro name entry (⟨rfl, -⟩ | ⟨rfl, -⟩ | ⟨rfl, -⟩ | ⟨rfl, -⟩ | ⟨rfl, -⟩) <;> decide
  · simp only [mixedEntries, List.mem_cons, List.not_mem_nil, or_false, Prod.mk.injEq]
    rintro name entry (⟨-, rfl⟩ | ⟨-, rfl⟩ | ⟨-, rfl⟩ | ⟨-, rfl⟩ | ⟨-, rfl⟩)
    · exact .file _
    · exact .file _
    · exact .file _
    · refine .directory (by decide) ?_ ?_
      · simp only [List.mem_cons, List.not_mem_nil, or_false, Prod.mk.injEq]
        rintro name entry ⟨rfl, -⟩
        decide
      · simp only [List.mem_cons, List.not_mem_nil, or_false, Prod.mk.injEq]
        rintro name entry ⟨-, rfl⟩
        exact .file _
    · exact .link _

/-- The working directory, with slashes behind it. -/
def slashed (n : Nat) : String :=
  String.ofList ('.' :: List.replicate n '/')

theorem pieces_replicate_slash (n : Nat) :
    Path.pieces (List.replicate n '/') = List.replicate (n + 1) [] := by
  induction n with
  | zero => rfl
  | succ n ih => rw [List.replicate_succ, Path.pieces, if_pos rfl, ih, ← List.replicate_succ]

theorem pieces_dot_slashes (n : Nat) :
    Path.pieces ('.' :: List.replicate n '/') = ['.'] :: List.replicate n [] := by
  rw [Path.pieces, if_neg (by decide), pieces_replicate_slash, List.replicate_succ]

theorem trunk_slashed (n : Nat) :
    Path.trunk (slashed (n + 1)) = '.' :: List.replicate n '/' := by
  have htext : (slashed (n + 1)).toList = ('.' :: List.replicate n '/') ++ ['/'] := by
    rw [slashed, String.toList_ofList, List.replicate_succ', List.cons_append]
  rw [Path.trunk, htext, List.getLast?_concat, if_pos rfl, List.dropLast_concat]

theorem byteLength_replicate_slash (n : Nat) : Text.byteLength (List.replicate n '/') = n := by
  induction n with
  | zero => rfl
  | succ n ih =>
      rw [List.replicate_succ, Text.byteLength, ih, Nat.add_comm]
      rfl

theorem size_slashed (n : Nat) : Text.size (slashed n) = n + 1 := by
  rw [Text.size, slashed, String.toList_ofList, Text.byteLength, byteLength_replicate_slash,
    Nat.add_comm]
  rfl

theorem slashed_ne_empty (n : Nat) : slashed n ≠ "" := by
  intro h
  have htext := congrArg String.toList h
  simp [slashed] at htext

theorem size_below_slashed (n : Nat) {name : String} (h : Path.IsEntryName name) :
    Text.size (Path.below (slashed (n + 1)) [name]) = n + 2 + Text.size name := by
  have htext := Path.toList_join (slashed_ne_empty (n + 1)) h.not_isAbsolute
  rw [trunk_slashed] at htext
  show Text.byteLength (Path.join _ name).toList = _
  have hdot : Char.utf8Size '.' = 1 := rfl
  have hslash : Char.utf8Size '/' = 1 := rfl
  rw [htext, Text.byteLength_append, Text.byteLength, Text.byteLength, byteLength_replicate_slash,
    hdot, hslash, Text.size]
  omega

theorem isAbsolute_slashed (n : Nat) : Path.isAbsolute (slashed n) = false := by
  simp [Path.isAbsolute, slashed]

/-- Repeated slashes do not count. -/
theorem components_below_slashed (n : Nat) :
    Path.components (Path.below (slashed (n + 1)) ["a.h"]) = [.current, .name "a.h"] := by
  have hname : Path.IsEntryName "a.h" := by decide
  have hpieces := Path.pieces_below (slashed_ne_empty (n + 1)) (List.forall_mem_singleton.mpr hname)
    (List.cons_ne_nil _ _)
  have habsolute : Path.isAbsolute (Path.below (slashed (n + 1)) ["a.h"]) = false := by
    rw [Path.below_cons, Path.below, List.foldl_nil,
      Path.isAbsolute_join (slashed_ne_empty (n + 1)) hname.not_isAbsolute, isAbsolute_slashed]
  rw [trunk_slashed, pieces_dot_slashes] at hpieces
  rw [Path.components, habsolute, hpieces]
  simp [Path.inner?]

theorem locate_replicate_empty (root : Entry) (links : Nat) (here : List String) (n : Nat) :
    root.locate links here (List.replicate n "") = root.locate links here [] := by
  induction n with
  | zero => rfl
  | succ n ih =>
      rw [List.replicate_succ, Entry.locate_cons]
      exact ih

theorem locate_mixedStore_slashed {n : Nat} (hn : n < pathLimit) :
    mixedStore.locate (slashed n) = .ok (.found [] (.directory mixedEntries)) := by
  have hzero : (slashed n).toList.contains '\x00' = false := by
    simp [slashed]
  have hempty : (slashed n).isEmpty = false := by simpa using slashed_ne_empty n
  have hsize := size_slashed n
  have hpieces : mixedStore.pieces (slashed n) = "" :: "." :: List.replicate n "" := by
    have hfull : (Path.absolute mixedStore.cwd (slashed n)).toList =
        '/' :: '.' :: List.replicate n '/' := by
      rw [Path.absolute, isAbsolute_slashed, if_neg (by decide),
        Path.toList_join (by decide) (isAbsolute_slashed n), slashed, String.toList_ofList]
      rfl
    rw [pieces, hfull, Path.pieces, if_pos rfl, pieces_dot_slashes]
    simp
  rw [locate, hzero, hempty, if_neg (by decide), if_neg (by decide), if_neg (by omega), hpieces,
    Entry.locate_cons]
  show mixedStore.root.locate linkLimit [] ("." :: List.replicate n "") = _
  rw [Entry.locate_cons]
  show mixedStore.root.locate linkLimit [] (List.replicate n "") = _
  rw [locate_replicate_empty, Entry.locate_nil]
  rfl

theorem canWalk_mixedEntries : CanWalk "." mixedEntries :=
  canWalk_iff.mpr (by decide)

/-! ## Reports -/

/-- What the reports of a directory are. -/
structure DirectoryReports (store : Store) (parser : Parser) (config : Config) (path : String)
    (place : List String) (entries : List (String × Entry)) (reports : List FileReport) : Prop where
  /-- Each file has one report, in the order of file names. -/
  ordered : reports.Pairwise fun a b => a.file < b.file
  mem_iff : ∀ report, report ∈ reports ↔ ∃ names, store.Selects config path entries names ∧
    store.wrapFile parser config (Path.below path names) = .ok report
  /-- The files met are those their paths lead to, and a file can be read if it is a text. -/
  readable : ∀ names contents, Meets entries names (.file contents) →
    store.locate (Path.below path names) = .ok (.found (place ++ names) (.file contents)) ∧
      ((∃ report, store.wrapFile parser config (Path.below path names) = .ok report) ↔
        ∃ text, contents = .text text)
  relisted : ∀ other : Store, other.cwd = store.cwd → store.root.Relisted other.root →
    other.wrapPath parser config path = .ok reports
  /-- Whatever one file holds, also if it cannot be read, the other reports stay. -/
  isolated : ∀ names old new, Meets entries names (.file old) →
    ∃ others, (store.withFile (place ++ names) new).wrapPath parser config path = .ok others ∧
      ∀ report, report.file ≠ Path.below path names → (report ∈ others ↔ report ∈ reports)

/-- The reports of a directory are those of its source files, unless the walk meets
a path that is too long to be looked at. -/
theorem wrapPath_directoryReports (store : Store) (parser : Parser) (config : Config) (path : String)
    (place : List String) (entries : List (String × Entry)) (hwell : store.root.WellFormed)
    (hpath : store.locate path = .ok (.found place (.directory entries))) :
    (CanWalk path entries → ∃ reports, store.wrapPath parser config path = .ok reports ∧
      store.DirectoryReports parser config path place entries reports) ∧
    (¬ CanWalk path entries → ∃ names entry, Meets entries names entry ∧
      pathLimit < Text.size (Path.below path names) ∧
      store.wrapPath parser config path = .error
        (.during s!"Failed to read metadata: {Path.below path names}" (.access .nameTooLong))) := by
  constructor
  · intro hwalk
    obtain ⟨reports, hreports, hordered, hmem⟩ :=
      wrapPath_of_alike hwell hwell (.refl store) hpath hwalk
    refine ⟨reports, hreports, hordered, hmem, ?_, ?_, ?_⟩
    · intro names contents hmeets
      have hlocate := locate_below_of_meets hwell hpath hmeets (hwalk names _ hmeets)
      exact ⟨hlocate, exists_wrapFile_iff ⟨contents, hlocate⟩ (get?_of_locate hlocate)⟩
    · intro other hcwd hrelisted
      exact wrapPath_of_relisted hwell hcwd hrelisted hpath hwalk hreports
    · intro names old new hmeets
      exact mem_wrapPath_withFile_iff hwell hpath hwalk hreports hmeets new
  · exact wrapPath_of_not_canWalk hpath

theorem wrapPath_directoryReports_mixedStore :
    mixedStore.root.WellFormed ∧
    mixedStore.locate "." = .ok (.found [] (.directory mixedEntries)) ∧
    mixedStore.Selects leavesOutX "." mixedEntries ["a.h"] ∧
    ∃ reports, mixedStore.wrapPath rootOnly leavesOutX "." = .ok reports ∧
      mixedStore.DirectoryReports rootOnly leavesOutX "." [] mixedEntries reports := by
  have hlocate : mixedStore.locate "." = .ok (.found [] (.directory mixedEntries)) :=
    locate_mixedStore_slashed (n := 0) (by decide)
  have hmeets : Meets mixedEntries ["a.h"] (.file (.text "")) := .here (by simp [mixedEntries])
  refine ⟨wellFormed_mixedStore, hlocate, ⟨⟨_, hmeets⟩, by decide +kernel, by decide +kernel⟩, ?_⟩
  exact (wrapPath_directoryReports mixedStore rootOnly leavesOutX "." [] mixedEntries
    wellFormed_mixedStore hlocate).1 canWalk_mixedEntries

/-- One entry whose path is too long takes away all reports, also that of a file
that can be read. -/
theorem wrapPath_slashed_eq_error :
    mixedStore.root.WellFormed ∧
    mixedStore.locate (slashed 4091) = .ok (.found [] (.directory mixedEntries)) ∧
    mixedStore.Selects leavesOutX (slashed 4091) mixedEntries ["a.h"] ∧
    (∃ report, mixedStore.wrapFile rootOnly leavesOutX (Path.below (slashed 4091) ["a.h"]) =
      .ok report) ∧
    ∃ fault, mixedStore.wrapPath rootOnly leavesOutX (slashed 4091) = .error fault := by
  have hlocate := locate_mixedStore_slashed (n := 4091) (by decide)
  have hmeets : Meets mixedEntries ["a.h"] (.file (.text "")) := .here (by simp [mixedEntries])
  have hlong : Meets mixedEntries ["long.cpp"] (.file (.text "")) := .here (by simp [mixedEntries])
  have hcomponents := components_below_slashed 4090
  have hsize := size_below_slashed 4090 (show Path.IsEntryName "a.h" by decide)
  have hsize' := size_below_slashed 4090 (show Path.IsEntryName "long.cpp" by decide)
  have hread := locate_below_of_meets wellFormed_mixedStore hlocate hmeets (by rw [hsize]; decide)
  refine ⟨wellFormed_mixedStore, hlocate, ⟨⟨_, hmeets⟩, ?_, ?_⟩, ?_, ?_⟩
  · rw [Path.isSource, Path.extension?, Path.fileName?, hcomponents]
    decide +kernel
  · rw [Config.takes, Config.relativePath, hcomponents]
    decide +kernel
  · exact (exists_wrapFile_iff ⟨_, hread⟩ (get?_of_locate hread)).mpr ⟨"", rfl⟩
  · have hwalk : ¬ CanWalk (slashed 4091) mixedEntries := by
      intro hwalk
      have hshort := hwalk _ _ hlong
      rw [hsize'] at hshort
      exact absurd hshort (by decide)
    obtain ⟨_, _, -, -, herror⟩ := wrapPath_of_not_canWalk hlocate hwalk
    exact ⟨_, herror⟩

end Store

end CachedCalls
