/-
# What commands do to files

Only one kind of run changes a file: wrapping with permission to write. Such a
run prints its reports first and then writes them back, and that never fails,
because every report was made from a file that its path leads to, and no write
before it moves that file. The files of changed reports end up with their patched
text. Everything else in the tree stays as it was, also the files of reports that
hold nothing but failures.
-/

import CachedCalls.CommandLine
import CachedCalls.Proofs.Project.Reports

namespace CachedCalls

open Entry (surface)

/-! ## Writing reports back -/

namespace Store

/-- What a store is after reports have been written back: the files of changed
reports hold the patched texts, and nothing else looks different. -/
structure WrittenBack (store : Store) (reports : List FileReport) (after : Store) : Prop where
  alike : store.Alike after
  written : ∀ report ∈ reports, report.isChanged = true →
    ∃ names, store.LeadsToFile report.file names ∧
      after.root.get? names = some (.file (.text report.patched))
  kept : ∀ names, (∀ report ∈ reports, report.isChanged = true →
      ¬ store.LeadsToFile report.file names) →
    (after.root.get? names).map surface = (store.root.get? names).map surface

/-- Reports can be written back if each changed one names a file, and reports of
one file agree about its text. -/
structure CanWriteBack (store : Store) (reports : List FileReport) : Prop where
  leads : ∀ report ∈ reports, report.isChanged = true →
    ∃ names, store.LeadsToFile report.file names
  agree : ∀ a ∈ reports, ∀ b ∈ reports, ∀ names, store.LeadsToFile a.file names →
    store.LeadsToFile b.file names → a.patched = b.patched

theorem CanWriteBack.tail {store : Store} {report : FileReport} {reports : List FileReport}
    (h : store.CanWriteBack (report :: reports)) : store.CanWriteBack reports where
  leads a ha := h.leads a (List.mem_cons_of_mem _ ha)
  agree a ha b hb := h.agree a (List.mem_cons_of_mem _ ha) b (List.mem_cons_of_mem _ hb)

theorem CanWriteBack.of_alike {store other : Store} {reports : List FileReport}
    (halike : store.Alike other) (h : store.CanWriteBack reports) : other.CanWriteBack reports where
  leads a ha hchanged := by
    obtain ⟨names, hnames⟩ := h.leads a ha hchanged
    exact ⟨names, halike.leadsToFile hnames⟩
  agree a ha b hb names hleads hleads' := h.agree a ha b hb names
    (halike.leadsToFile_iff.mp hleads) (halike.leadsToFile_iff.mp hleads')

/-- One write in front of others. If a later report is of the same file, it
writes the same text again. -/
theorem WrittenBack.cons {store after : Store} {report : FileReport} {reports : List FileReport}
    {names : List String} (hcan : store.CanWriteBack (report :: reports))
    (hleads : store.LeadsToFile report.file names) (hchanged : report.isChanged = true)
    (h : (store.withFile names (.text report.patched)).WrittenBack reports after) :
    store.WrittenBack (report :: reports) after := by
  obtain ⟨old, hold⟩ := hleads.exists_get?
  have halike := alike_withFile hold (.text report.patched)
  refine ⟨halike.trans h.alike, ?_, ?_⟩
  · intro a ha ha_changed
    rcases List.mem_cons.mp ha with rfl | hmem
    · refine ⟨names, hleads, ?_⟩
      by_cases hagain : ∃ b ∈ reports, b.isChanged = true ∧ store.LeadsToFile b.file names
      · obtain ⟨b, hb, hb_changed, hb_leads⟩ := hagain
        obtain ⟨names', hnames', hwritten⟩ := h.written b hb hb_changed
        rw [(halike.leadsToFile hb_leads).unique hnames', hwritten,
          hcan.agree a ha b (List.mem_cons_of_mem _ hb) names hleads hb_leads]
      · apply Entry.map_surface_eq_file_iff.mp
        rw [h.kept names, surface_withFile hold, if_pos rfl]
        intro b hb hb_changed hb_leads
        exact hagain ⟨b, hb, hb_changed, halike.leadsToFile_iff.mp hb_leads⟩
    · obtain ⟨names', hnames', hwritten⟩ := h.written a hmem ha_changed
      exact ⟨names', halike.leadsToFile_iff.mp hnames', hwritten⟩
  · intro place hplace
    have hne : place ≠ names := by
      rintro rfl
      exact hplace report List.mem_cons_self hchanged hleads
    rw [h.kept place, surface_withFile hold, if_neg hne]
    intro b hb hb_changed hb_leads
    exact hplace b (List.mem_cons_of_mem _ hb) hb_changed (halike.leadsToFile_iff.mp hb_leads)

theorem WrittenBack.cons_of_unchanged {store after : Store} {report : FileReport}
    {reports : List FileReport} (hunchanged : report.isChanged = false)
    (h : store.WrittenBack reports after) : store.WrittenBack (report :: reports) after := by
  have hmem : ∀ a ∈ report :: reports, a.isChanged = true → a ∈ reports := by
    intro a ha hchanged
    rcases List.mem_cons.mp ha with rfl | hmem
    · rw [hunchanged] at hchanged
      cases hchanged
    · exact hmem
  refine ⟨h.alike, fun a ha hchanged => h.written a (hmem a ha hchanged) hchanged,
    fun names hnames => h.kept names fun a ha => hnames a (List.mem_cons_of_mem _ ha)⟩

/-- Reports of files that were read can be written back. -/
theorem canWriteBack_of_wrapPath {store : Store} {parser : Parser} {config : Config}
    {path : String} {reports : List FileReport}
    (h : store.wrapPath parser config path = .ok reports) : store.CanWriteBack reports where
  leads report hreport _ := by
    obtain ⟨names, _, _, hleads, -, -, -⟩ :=
      wrapFile_eq_ok_iff.mp (wrapFile_file_of_mem_wrapPath h hreport)
    exact ⟨names, hleads⟩
  agree a ha b hb _ hleads hleads' :=
    patched_eq_of_leadsToFile (wrapFile_file_of_mem_wrapPath h ha)
      (wrapFile_file_of_mem_wrapPath h hb) hleads hleads'

end Store

namespace CommandLine

theorem writeAll_of_canWriteBack {store : Store} {reports : List FileReport}
    (h : store.CanWriteBack reports) :
    ∃ after, writeAll store reports = (after, none) ∧ store.WrittenBack reports after := by
  induction reports generalizing store with
  | nil =>
      refine ⟨store, rfl, .refl store, ?_, fun names _ => rfl⟩
      intro report hreport
      cases hreport
  | cons report reports ih =>
      cases hchanged : report.isChanged with
      | false =>
          obtain ⟨after, hafter, hwritten⟩ := ih h.tail
          rw [writeAll, store.writeBack_of_unchanged hchanged]
          exact ⟨after, hafter, hwritten.cons_of_unchanged hchanged⟩
      | true =>
          obtain ⟨names, hleads⟩ := h.leads report List.mem_cons_self hchanged
          obtain ⟨old, hold⟩ := hleads.exists_get?
          obtain ⟨after, hafter, hwritten⟩ :=
            ih (h.tail.of_alike (Store.alike_withFile hold (.text report.patched)))
          rw [writeAll, Store.writeBack_of_leadsToFile hleads hchanged]
          exact ⟨after, hafter, hwritten.cons h hleads hchanged⟩

/-! ## Permission to write -/

theorem eq_of_splitOption {argument name : String} (h : splitOption argument = (name, none)) :
    name = argument := by
  unfold splitOption at h
  split at h
  · rename_i hrest
    cases h
    have hwhole := List.takeWhile_append_dropWhile (p := (· ≠ '=')) (l := argument.toList)
    rw [hrest, List.append_nil] at hwhole
    rw [hwhole, String.ofList_toList]
  · cases h

/-- A flag among items is one of the arguments. -/
theorem mem_of_flag_mem_items {valued flags arguments : List String} {items : List Item}
    {name : String} (h : items? valued flags arguments = some items) (hname : .flag name ∈ items) :
    name ∈ arguments := by
  -- A flag is read in `case10` only. The other cases pass it on from the rest, end, or fail.
  fun_induction items? valued flags arguments generalizing items with
  | case1 =>
      cases h
      cases hname
  | case2 rest =>
      cases h
      simp at hname
  | case3 argument rest _ _ ih => exact List.mem_cons_of_mem _ (ih h hname)
  | case4 argument rest _ _ inFull _ =>
      cases h
      simp at hname
  | case5 argument rest _ _ _ _ ih =>
      obtain ⟨others, hothers, rfl⟩ := Option.map_eq_some_iff.mp h
      exact List.mem_cons_of_mem _ (ih hothers (by simpa using hname))
  | case6 argument rest _ _ _ _ _ _ _ _ ih =>
      obtain ⟨others, hothers, rfl⟩ := Option.map_eq_some_iff.mp h
      exact List.mem_cons_of_mem _ (ih hothers (by simpa using hname))
  | case7 => cases h
  | case8 => cases h
  | case9 argument _ _ _ _ _ _ _ rest _ _ ih =>
      obtain ⟨others, hothers, rfl⟩ := Option.map_eq_some_iff.mp h
      exact List.mem_cons_of_mem _ (List.mem_cons_of_mem _ (ih hothers (by simpa using hname)))
  | case10 argument rest _ _ _ _ flag value hsplit _ hflag ih =>
      obtain ⟨others, hothers, rfl⟩ := Option.map_eq_some_iff.mp h
      rcases List.mem_cons.mp hname with hfirst | hmem
      · cases hfirst
        rw [Option.isNone_iff_eq_none.mp hflag.2] at hsplit
        exact eq_of_splitOption hsplit ▸ List.mem_cons_self
      · exact List.mem_cons_of_mem _ (ih hothers hmem)
  | case11 => cases h

theorem flag_mem_of_flag? {items : List Item} {name : String} (h : flag? items name = some true) :
    .flag name ∈ items := by
  unfold flag? at h
  split at h
  · cases h
  · rename_i hcount
    have hpos : 0 < items.countP (· == .flag name) := by omega
    obtain ⟨item, hitem, heq⟩ := List.countP_pos_iff.mp hpos
    exact eq_of_beq heq ▸ hitem
  · cases h

section Wrapping

variable {arguments : List String} {path : String} {write : Bool} {format : Format}
  {config adapter marker : Option String}

/-- Below a command stands a page on it, or the command that is named, with its own arguments. -/
theorem of_subcommand? {above : List String} {named? : String → List String → Option Command}
    {command : Command} (h : subcommand? above named? arguments = some command) :
    (∃ page, command = .showPage page) ∨
      ∃ name rest, named? name rest = some command ∧ rest ⊆ arguments := by
  unfold subcommand? at h
  split at h
  · cases h
  · next name rest hdrop =>
    split at h
    · cases h
      exact .inl ⟨_, rfl⟩
    · split_ifs at h
      · obtain ⟨page, -, rfl⟩ := Option.map_eq_some_iff.mp h
        exact .inl ⟨page, rfl⟩
      · refine .inr ⟨name, rest, h, fun argument hmem => ?_⟩
        apply (List.dropWhile_sublist isVerbosity).subset
        rw [hdrop]
        exact List.mem_cons_of_mem _ hmem

theorem write_mem_of_wrapCommand?
    (h : wrapCommand? arguments = some (.wrap path true format config adapter marker)) :
    "--write" ∈ arguments := by
  simp only [wrapCommand?, Option.bind_eq_bind, Option.bind_eq_some_iff] at h
  obtain ⟨items, hitems, _, -, _, -, write, hwrite, _, -, _, -, _, -, _, -, _, -, _, -, h⟩ := h
  split at h
  · cases h
  · obtain ⟨_, -, hwrap⟩ := Option.map_eq_some_iff.mp h
    cases hwrap
    exact mem_of_flag_mem_items hitems (flag_mem_of_flag? hwrite)

theorem configCommand?_ne_wrap {name : String} {make : Option String → Command}
    (hmake : ∀ given, make given ≠ .wrap path write format config adapter marker) :
    configCommand? name make arguments ≠ some (.wrap path write format config adapter marker) := by
  intro h
  simp only [configCommand?, Option.bind_eq_bind, Option.bind_eq_some_iff] at h
  obtain ⟨items, -, _, -, given, -, h⟩ := h
  split at h
  · cases h
  · exact hmake given (Option.some.inj h)
  · cases h

/-- No command on the configuration wraps functions. -/
theorem parseConfig?_ne_wrap :
    parseConfig? arguments ≠ some (.wrap path write format config adapter marker) := by
  intro h
  obtain ⟨_, hpage⟩ | ⟨name, rest, hnamed, -⟩ := of_subcommand? h
  · cases hpage
  · split at hnamed
    · exact absurd hnamed (configCommand?_ne_wrap fun _ => nofun)
    · exact absurd hnamed (configCommand?_ne_wrap fun _ => nofun)
    · cases hnamed

/-- Permission to write comes from the arguments. -/
theorem write_mem_of_parse?
    (h : parse? arguments = some (.wrap path true format config adapter marker)) :
    "--write" ∈ arguments := by
  obtain ⟨_, hpage⟩ | ⟨name, rest, hnamed, hrest⟩ := of_subcommand? h
  · cases hpage
  · split at hnamed
    · exact hrest (write_mem_of_wrapCommand? hnamed)
    · exact absurd hnamed parseConfig?_ne_wrap
    · split_ifs at hnamed
      cases hnamed

end Wrapping

/-! ## Runs -/

/-- The reports of a run that wraps the functions at a path. -/
def reportsAt (store : Store) (parser : Parser) (path : String)
    (config adapter marker : Option String) : Except Fault (List FileReport) := do
  let config ← runConfig store path config adapter marker
  store.wrapPath parser config path

theorem run_wrap_eq (store : Store) (parser : Parser) (path : String) (write : Bool)
    (format : Format) (config adapter marker : Option String) :
    (Command.wrap path write format config adapter marker).run store parser =
      match reportsAt store parser path config adapter marker with
      | .error fault => .failed store fault
      | .ok reports => finishWrap store write format reports := rfl

theorem finishWrap_of_canWriteBack {store : Store} {reports : List FileReport}
    (h : store.CanWriteBack reports) (write : Bool) (format : Format) :
    ∃ after, (if write = true then store.WrittenBack reports after else after = store) ∧
      finishWrap store write format reports =
        { status := if reports.any (·.hasFailures) then 1 else 0
          output := format.render reports
          store := after } := by
  cases write with
  | false => exact ⟨store, rfl, rfl⟩
  | true =>
      obtain ⟨after, hafter, hwritten⟩ := writeAll_of_canWriteBack h
      refine ⟨after, hwritten, ?_⟩
      rw [finishWrap, if_pos rfl, hafter]

/-- Reading reports never writes, and writing them back never fails. -/
theorem run_wrap_of_reportsAt {store : Store} {parser : Parser} {path : String}
    {config adapter marker : Option String} {reports : List FileReport}
    (h : reportsAt store parser path config adapter marker = .ok reports) (write : Bool)
    (format : Format) :
    ∃ after, (if write = true then store.WrittenBack reports after else after = store) ∧
      (Command.wrap path write format config adapter marker).run store parser =
        { status := if reports.any (·.hasFailures) then 1 else 0
          output := format.render reports
          store := after } := by
  obtain ⟨_, -, hreports⟩ := bind_eq_ok_iff.mp h
  rw [run_wrap_eq, h]
  exact finishWrap_of_canWriteBack (Store.canWriteBack_of_wrapPath hreports) write format

/-- Commands that may not write change no file. -/
theorem store_run_of_not_write (store : Store) (parser : Parser) {command : Command}
    (h : ∀ path format config adapter marker,
      command ≠ .wrap path true format config adapter marker) :
    (command.run store parser).store = store := by
  cases command with
  | wrap path write format config adapter marker =>
      cases write with
      | true => exact absurd rfl (h _ _ _ _ _)
      | false =>
          rw [run_wrap_eq]
          split <;> rfl
  | validateConfig path =>
      rw [Command.run]
      split
      · rfl
      · split <;> rfl
  | showConfig path =>
      rw [Command.run]
      split <;> rfl
  | showPage page => rfl

/-- What a run does to files. Without permission to write it changes nothing. A
run that wraps functions either fails before it has written anything, or it
prints its reports, writes back those that changed and no others, and has status
1 exactly if a function was left alone. -/
theorem run_writes_exactly_changed_reports (store : Store) (parser : Parser)
    (arguments : List String) :
    ("--write" ∉ arguments → (run store parser arguments).store = store) ∧
    ((∀ path format config adapter marker,
        parse? arguments ≠ some (.wrap path true format config adapter marker)) →
      (run store parser arguments).store = store) ∧
    ∀ path write format config adapter marker,
      parse? arguments = some (.wrap path write format config adapter marker) →
      (∀ fault, reportsAt store parser path config adapter marker = .error fault →
        run store parser arguments = .failed store fault) ∧
      ∀ reports, reportsAt store parser path config adapter marker = .ok reports →
        (run store parser arguments).complaint = none ∧
        (run store parser arguments).output = format.render reports ∧
        ((run store parser arguments).status = 1 ↔ ∃ report ∈ reports, report.failures ≠ []) ∧
        ((run store parser arguments).status = 0 ↔ ∀ report ∈ reports, report.failures = []) ∧
        (write = true → store.WrittenBack reports (run store parser arguments).store) := by
  have hkept : (∀ path format config adapter marker,
      parse? arguments ≠ some (.wrap path true format config adapter marker)) →
      (run store parser arguments).store = store := by
    intro h
    rw [run]
    cases hparse : parse? arguments with
    | none => rfl
    | some command =>
        apply store_run_of_not_write
        rintro path format config adapter marker rfl
        exact h path format config adapter marker hparse
  refine ⟨?_, hkept, ?_⟩
  · intro hwrite
    exact hkept fun path format config adapter marker h => hwrite (write_mem_of_parse? h)
  · intro path write format config adapter marker hparse
    have hrun : run store parser arguments =
        (Command.wrap path write format config adapter marker).run store parser := by
      rw [run, hparse]
    refine ⟨?_, ?_⟩
    · intro fault hfault
      rw [hrun, run_wrap_eq, hfault]
    · intro reports hreports
      obtain ⟨after, hafter, hend⟩ := run_wrap_of_reportsAt hreports write format
      rw [hrun, hend]
      refine ⟨rfl, rfl, ?_, ?_, ?_⟩
      · simp [FileReport.hasFailures]
      · simp [FileReport.hasFailures]
      · rintro rfl
        exact hafter

end CommandLine

end CachedCalls
