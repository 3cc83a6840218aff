/-
# Reports of files

A file has a report if and only if it can be read as text, because wrapping a
text never fails. The report depends on nothing but the name of the file, its
text and the configuration. Reports of several files are those of the single
files, put in order; a file without a report leaves no trace among them. What a
report does to its file is decided by its edits: without one the file is left
alone.
-/

import CachedCalls.Project
import CachedCalls.Proofs.Files.Writing
import CachedCalls.Proofs.SourceUnit.Survivors

namespace CachedCalls

/-- Wrapping a text never fails. -/
theorem exists_wrapSource_eq_ok (source : String) (tree : Tree) (marker adapter : String) :
    ∃ outcome, wrapSource source tree marker adapter = .ok outcome := by
  obtain ⟨_, -, -, hrun⟩ :=
    wrapUnit_eq_ok source (tree.symbols source) adapter (tree.candidates source marker)
  exact ⟨_, hrun⟩

theorem Fault.context_eq_ok_iff {α ε : Type} {attempt : String} {wrap : ε → Fault}
    {result : Except ε α} {a : α} :
    Fault.context attempt wrap result = .ok a ↔ result = .ok a := by
  cases result <;> simp [Fault.context, Except.mapError]

namespace Store

variable {store : Store} {parser : Parser} {config : Config}

/-! ## One file -/

theorem wrapFile_eq_ok_iff {path : String} {report : FileReport} :
    store.wrapFile parser config path = .ok report ↔
      ∃ names text outcome, store.LeadsToFile path names ∧
        store.root.get? names = some (.file (.text text)) ∧
        wrapSource text (parser text) config.marker config.adapter = .ok outcome ∧
        report = .ofOutcome path outcome := by
  simp only [wrapFile, bind_eq_ok_iff, Fault.context_eq_ok_iff, read_eq_ok_iff]
  constructor
  · rintro ⟨text, ⟨names, hpath, hfile⟩, outcome, houtcome, h⟩
    cases h
    exact ⟨names, text, outcome, hpath, hfile, houtcome, rfl⟩
  · rintro ⟨names, text, outcome, hpath, hfile, houtcome, rfl⟩
    exact ⟨text, ⟨names, hpath, hfile⟩, outcome, houtcome, rfl⟩

theorem file_of_wrapFile {path : String} {report : FileReport}
    (h : store.wrapFile parser config path = .ok report) : report.file = path := by
  obtain ⟨_, _, _, -, -, -, rfl⟩ := wrapFile_eq_ok_iff.mp h
  rfl

/-- A path that leads to a file has a report if and only if the file is a text. -/
theorem exists_wrapFile_iff {path : String} {names : List String} {contents : Contents}
    (hpath : store.LeadsToFile path names)
    (hfile : store.root.get? names = some (.file contents)) :
    (∃ report, store.wrapFile parser config path = .ok report) ↔
      ∃ text, contents = .text text := by
  constructor
  · rintro ⟨report, hreport⟩
    obtain ⟨names', text, _, hpath', hfile', -, -⟩ := wrapFile_eq_ok_iff.mp hreport
    rw [← hpath.unique hpath', hfile] at hfile'
    cases hfile'
    exact ⟨text, rfl⟩
  · rintro ⟨text, rfl⟩
    obtain ⟨outcome, houtcome⟩ :=
      exists_wrapSource_eq_ok text (parser text) config.marker config.adapter
    exact ⟨_, wrapFile_eq_ok_iff.mpr ⟨names, text, outcome, hpath, hfile, houtcome, rfl⟩⟩

/-- Paths that lead to one file have the same text after wrapping. -/
theorem patched_eq_of_leadsToFile {a b : FileReport} {names : List String}
    (ha : store.wrapFile parser config a.file = .ok a)
    (hb : store.wrapFile parser config b.file = .ok b) (ha' : store.LeadsToFile a.file names)
    (hb' : store.LeadsToFile b.file names) : a.patched = b.patched := by
  obtain ⟨namesA, textA, outcomeA, hpathA, hfileA, houtcomeA, hreportA⟩ :=
    wrapFile_eq_ok_iff.mp ha
  obtain ⟨namesB, textB, outcomeB, hpathB, hfileB, houtcomeB, hreportB⟩ :=
    wrapFile_eq_ok_iff.mp hb
  rw [hpathA.unique ha'] at hfileA
  rw [hpathB.unique hb', hfileA] at hfileB
  cases hfileB
  rw [houtcomeA] at houtcomeB
  cases houtcomeB
  rw [hreportA, hreportB]
  rfl

/-! ## Several files -/

theorem wrapPath_eq_ok_iff {path : String} {reports : List FileReport} :
    store.wrapPath parser config path = .ok reports ↔
      ∃ files, store.sources path = .ok files ∧
        reports = FileReport.sort ((files.filter (config.takes store.cwd)).filterMap fun file =>
          (store.wrapFile parser config file).toOption) := by
  rw [wrapPath, bind_eq_ok_iff]
  refine exists_congr fun files => and_congr_right fun _ => ?_
  show Except.ok _ = Except.ok reports ↔ _
  rw [Except.ok.injEq, eq_comm]
  refine Eq.congr_right (congrArg FileReport.sort (List.filterMap_congr fun file _ => ?_))
  cases store.wrapFile parser config file <;> rfl

theorem mem_sort_iff {reports : List FileReport} {report : FileReport} :
    report ∈ FileReport.sort reports ↔ report ∈ reports :=
  List.mem_mergeSort

theorem mem_wrapPath_iff {path : String} {files : List String} {reports : List FileReport}
    (hfiles : store.sources path = .ok files)
    (h : store.wrapPath parser config path = .ok reports) {report : FileReport} :
    report ∈ reports ↔ ∃ file ∈ files, config.takes store.cwd file = true ∧
      store.wrapFile parser config file = .ok report := by
  obtain ⟨files', hfiles', rfl⟩ := wrapPath_eq_ok_iff.mp h
  rw [hfiles] at hfiles'
  cases hfiles'
  simp only [mem_sort_iff, List.mem_filterMap, List.mem_filter, toOption_eq_some_iff, and_assoc]

/-- Every report of a path is the report of the file that it names. -/
theorem wrapFile_file_of_mem_wrapPath {path : String} {reports : List FileReport}
    (h : store.wrapPath parser config path = .ok reports) {report : FileReport}
    (hreport : report ∈ reports) : store.wrapFile parser config report.file = .ok report := by
  obtain ⟨files, hfiles, -⟩ := wrapPath_eq_ok_iff.mp h
  obtain ⟨file, -, -, hfile⟩ := (mem_wrapPath_iff hfiles h).mp hreport
  rw [file_of_wrapFile hfile]
  exact hfile

/-! ## Writing back -/

theorem writeBack_of_unchanged (store : Store) {report : FileReport}
    (h : report.isChanged = false) : store.writeBack report = .ok (store, false) := by
  rw [writeBack, h]
  rfl

/-- Writing back says that it wrote exactly when the report has an edit. -/
theorem eq_isChanged_of_writeBack {store after : Store} {report : FileReport} {written : Bool}
    (h : store.writeBack report = .ok (after, written)) : written = report.isChanged := by
  rw [writeBack] at h
  split at h
  · next hchanged =>
    rw [hchanged]
    cases hwrite : Fault.context s!"Failed to write file: {report.file}" Fault.access
        (store.write report.file report.patched) with
    | error fault =>
        rw [hwrite] at h
        cases h
    | ok stored =>
        rw [hwrite] at h
        cases h
        rfl
  · next hchanged =>
    cases h
    simpa using hchanged

theorem writeBack_of_leadsToFile {store : Store} {report : FileReport} {names : List String}
    (hleads : store.LeadsToFile report.file names) (h : report.isChanged = true) :
    store.writeBack report = .ok (store.withFile names (.text report.patched), true) := by
  rw [writeBack, h, if_pos rfl, write_of_leadsToFile hleads]
  rfl

end Store

end CachedCalls
