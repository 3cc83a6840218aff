/-
# Reports read back from JSON and replayed

A report is written with everything but the resulting text. This module shows
that reading gives back all that was written, so the text is lost only on paper:
the edits of the report, applied to the source of the run, produce it again.

Reports come with two limits, those of the machine integers they are held in:
offsets have 64 bits and lines have 32. The report of a run keeps within them if
its source and its candidates do, because every offset of an edit lies in the
source and every line of the report is the line of a candidate.
-/

import CachedCalls.Proofs.Edit.Json
import CachedCalls.Proofs.SourceUnit.Accounting
import CachedCalls.Report.Json

namespace CachedCalls

open Json Reader Text

/-! ## Reports that can be held -/

/-- A line number of 32 bits. -/
def IsLine (line : Nat) : Prop :=
  line < UInt32.size

instance (line : Nat) : Decidable (IsLine line) :=
  inferInstanceAs (Decidable (line < UInt32.size))

/-- All offsets and lines of a report can be held. -/
structure FileReport.Held (report : FileReport) : Prop where
  wrapped : ∀ f ∈ report.wrapped, IsLine f.line
  failures : ∀ f ∈ report.failures, IsLine f.line
  edits : ∀ edit ∈ report.edits, edit.Held

/-! ## Records -/

theorem reads_line {line : Nat} (h : IsLine line) (level : Nat) :
    Reads Reader.line (render level (.ofNat line)) line := by
  rw [render_ofNat]
  exact reads_natural h (Nat.lt_trans h (by decide)) "u32"

theorem WrappedFunction.reads_reader {g : WrappedFunction} (h : IsLine g.line) (level : Nat) :
    Reads reader (render level g.toJson) g := by
  refine reads_record ?_ (.refl _) (by decide) .complete
  refine .field (f := fun name => ⟨name, "", 0⟩) rfl (reads_text g.name) ?_
  refine .field (f := fun line => ⟨g.name, "", line⟩) rfl (reads_line h (level + 1)) ?_
  refine .field (f := fun mangled => ⟨g.name, mangled, g.line⟩) rfl (reads_text g.mangledName) ?_
  exact .nil g

theorem FailureReport.reads_reader {g : FailureReport} (h : IsLine g.line) (level : Nat) :
    Reads reader (render level g.toJson) g := by
  refine reads_record ?_ (.refl _) (by decide) .complete
  refine .field (f := fun name => ⟨name, 0, "", ""⟩) rfl (reads_text g.function) ?_
  refine .field (f := fun line => ⟨g.function, line, "", ""⟩) rfl (reads_line h (level + 1)) ?_
  refine .field (f := fun kind => ⟨g.function, g.line, kind, ""⟩) rfl (reads_text g.kind) ?_
  refine .field (f := fun message => ⟨g.function, g.line, g.kind, message⟩) rfl
    (reads_text g.message) ?_
  exact .nil g

namespace FileReport

/-- A report without the resulting text. -/
def withoutText (report : FileReport) : FileReport :=
  { report with patched := "" }

theorem reads_reader {report : FileReport} (h : report.Held) (level : Nat) :
    Reads reader (render level report.toJson) report.withoutText := by
  refine reads_record ?_ (.refl _) (by decide) .complete
  refine .field (f := fun file => ⟨file, [], [], [], ""⟩) rfl (reads_text report.file) ?_
  refine .field (f := fun wrapped => ⟨report.file, wrapped, [], [], ""⟩) rfl
    (reads_list (fun _ _ => startsValue_render_object _ _)
      fun g hg => WrappedFunction.reads_reader (h.wrapped g hg) _) ?_
  refine .field (f := fun failures => ⟨report.file, report.wrapped, failures, [], ""⟩) rfl
    (reads_list (fun _ _ => startsValue_render_object _ _)
      fun g hg => FailureReport.reads_reader (h.failures g hg) _) ?_
  refine .field (f := fun edits => ⟨report.file, report.wrapped, report.failures, edits, ""⟩) rfl
    (reads_list (fun edit _ => by cases edit <;> exact startsValue_render_object _ _)
      fun edit hedit => Edit.reads_edit (h.edits edit hedit) _ _) ?_
  exact .nil _

/-- Every list of reports is read back from its JSON text, without the resulting texts. -/
theorem readList_renderJson {reports : List FileReport} (h : ∀ report ∈ reports, report.Held) :
    readList (renderJson reports) = .ok (reports.map withoutText) := by
  -- The text is the same for reports that have no resulting text to begin with.
  have hjson : (reports.map withoutText).map toJson = reports.map toJson := by
    rw [List.map_map]
    rfl
  have hreads : Reads (Reader.list reader) (render 0 (.array (reports.map toJson)))
      (reports.map withoutText) := by
    rw [← hjson]
    apply reads_list
    · exact fun _ _ => startsValue_render_object _ _
    · rw [List.forall_mem_map]
      exact fun report hreport => reads_reader (h report hreport) 1
  exact run_of_reads hreads

end FileReport

/-! ## The report of a run -/

section Unit

variable (source : String) (symbols : SymbolTable) (adapter : String)
  {candidates : List Candidate}

/-- A line that a run reports for a wrapped function or a failure is the line of a candidate. -/
theorem isLine_of_candidates (h : ∀ candidate ∈ candidates, IsLine candidate.entry.1) :
    (∀ plan ∈ survivors source symbols adapter candidates, IsLine plan.line) ∧
      ∀ failure ∈ failuresOf source symbols adapter candidates, IsLine failure.line := by
  have hperm := survivors_failuresOf_perm source symbols adapter candidates
  have hentries : ∀ entry ∈ candidates.map Candidate.entry, IsLine entry.1 := by
    rw [List.forall_mem_map]
    exact h
  constructor
  · intro plan hplan
    exact hentries plan.entry (hperm.mem_iff.mp
      (List.mem_append_left _ (List.mem_map_of_mem hplan)))
  · intro failure hfailure
    exact hentries failure.entry (hperm.mem_iff.mp
      (List.mem_append_right _ (List.mem_map_of_mem hfailure)))

variable {source}

theorem Edit.held_of_fits {edit : Edit} (h : edit.Fits source) (hsource : size source < UInt64.size) :
    edit.Held := by
  have hforward := h.forward
  have hinside := h.inside
  exact ⟨by omega, by omega⟩

/-- The report of a run can be held, and applying its edits to the source gives its text. -/
theorem exists_report_held (file : String) (hsource : size source < UInt64.size)
    (hlines : ∀ candidate ∈ candidates, IsLine candidate.entry.1) :
    ∃ outcome, wrapUnit source symbols adapter candidates = .ok outcome ∧
      (FileReport.ofOutcome file outcome).Held ∧
      Edit.apply source outcome.edits = .ok outcome.patched := by
  obtain ⟨text, hsplice, -, hrun⟩ := wrapUnit_eq_ok source symbols adapter candidates
  have hstands : ∀ plan ∈ survivors source symbols adapter candidates, plan.StandsIn source :=
    standsIn_of_mem_survivors
  obtain ⟨text', hsplice', -, happly⟩ :=
    apply_flatMap_edits hstands (pairwise_survivors source symbols adapter candidates)
  obtain rfl : text = text' := Option.some.inj (hsplice.symm.trans hsplice')
  obtain ⟨hplans, hfailures⟩ := isLine_of_candidates source symbols adapter hlines
  refine ⟨_, hrun, ⟨?_, ?_, ?_⟩, happly⟩
  · exact List.forall_mem_map.mpr hplans
  · exact List.forall_mem_map.mpr hfailures
  · exact fun edit hedit =>
      Edit.held_of_fits (fits_of_mem_flatMap_edits hstands edit hedit) hsource

end Unit

namespace FileReport

/-- Reports survive being written as JSON. Every list of reports whose offsets and lines can be held
is read back without the resulting texts, and the edits that are read back from the report of a run
turn the source of the run into its resulting text. -/
theorem readList_renderJson_replays :
    (∀ reports : List FileReport, (∀ report ∈ reports, report.Held) →
      readList (renderJson reports) =
        .ok (reports.map fun report => { report with patched := "" })) ∧
    ∀ (file source adapter : String) (symbols : SymbolTable) (candidates : List Candidate),
      size source < UInt64.size → (∀ candidate ∈ candidates, IsLine candidate.entry.1) →
      ∃ outcome report, wrapUnit source symbols adapter candidates = .ok outcome ∧
        readList (renderJson [ofOutcome file outcome]) = .ok [report] ∧
        Edit.apply source report.edits = .ok outcome.patched := by
  refine ⟨fun reports h => readList_renderJson h, ?_⟩
  intro file source adapter symbols candidates hsource hlines
  obtain ⟨outcome, hrun, hheld, happly⟩ := exists_report_held symbols adapter file hsource hlines
  exact ⟨outcome, _, hrun, readList_renderJson (List.forall_mem_singleton.mpr hheld), happly⟩

/-- Edits of all kinds, and texts with quotes, backslashes, control characters and characters from
beyond the basic plane; and a run that wraps one function and leaves another alone. -/
theorem readList_renderJson_replays_escapes :
    let report : FileReport := ⟨"src\\ü.cpp", [⟨"f", "f__original__", 1⟩],
      [⟨"g", 4294967295, "missing_body", "no \"body\"\x01\x7f"⟩],
      [.replace ⟨0, 5⟩ "int f__original__", .insertAfter 18446744073709551615 "\n\t𝔽",
        .insertBefore 0 "int f();\n"], "kept out"⟩
    let source := "int f() \x7b\x7d"
    let candidates : List Candidate := [.ok ⟨"f", "int", [], 0, 5, some ⟨8, 10⟩, 1⟩,
      .error ⟨2, "g", .missingBody⟩]
    (∀ r ∈ [report], r.Held) ∧
      readList (renderJson [report]) = .ok [{ report with patched := "" }] ∧
      size source < UInt64.size ∧ (∀ candidate ∈ candidates, IsLine candidate.entry.1) ∧
      ∃ outcome report, wrapUnit source .empty "memoize" candidates = .ok outcome ∧
        readList (renderJson [ofOutcome "f.cpp" outcome]) = .ok [report] ∧
        Edit.apply source report.edits = .ok outcome.patched := by
  intro report source candidates
  have hreport : ∀ r ∈ [report], r.Held :=
    List.forall_mem_singleton.mpr ⟨by decide, by decide, by decide⟩
  have hsource : size source < UInt64.size := by decide
  have hlines : ∀ candidate ∈ candidates, IsLine candidate.entry.1 := by decide
  exact ⟨hreport, readList_renderJson_replays.1 [report] hreport, hsource, hlines,
    readList_renderJson_replays.2 "f.cpp" source "memoize" .empty candidates hsource hlines⟩

end FileReport

end CachedCalls
