/-
# Files are written when their text changes

Whether a file is written back is decided by its edits, without a look at the
texts. That is the same as comparing the texts, although the new ones are made
of names and return types that come from outside and could happen to repeat what
they replace. Every wrapped function brings a name into the patched text that
stands there as a word, and this name was checked to be no word of the source.
So the two texts differ as soon as there is one edit.
-/

import CachedCalls.Proofs.Project.Reports
import CachedCalls.Proofs.SourceUnit.SecondPass

namespace CachedCalls

section Unit

variable {source : String} {symbols : SymbolTable} {adapter : String} {candidates : List Candidate}

theorem flatMap_edits_eq_nil_iff {plans : List Plan} :
    plans.flatMap Plan.edits = [] ↔ plans = [] := by
  cases plans with
  | nil => simp
  | cons plan plans => simp [Plan.edits]

/-- Where every word of the source counts as taken, edits cannot lead back to the source. -/
theorem survivors_eq_nil_iff_of_contains {text : String}
    (hsymbols : ∀ word ∈ Text.identifiers source, symbols.contains word = true)
    (htext : Edit.splice? source 0
      ((survivors source symbols adapter candidates).flatMap Plan.editsInOrder) = some text) :
    survivors source symbols adapter candidates = [] ↔ text = source := by
  constructor
  · intro hnone
    rw [hnone, List.flatMap_nil, Edit.splice?, Span.slice?_zero_size, Option.some.injEq] at htext
    exact htext.symm
  · rintro rfl
    rw [List.eq_nil_iff_forall_not_mem]
    intro plan hplan
    obtain ⟨-, -, hfree⟩ := names_of_mem_survivors hplan
    rw [hsymbols _ (mem_identifiers_of_mem_survivors hplan htext)] at hfree
    cases hfree

theorem isUnchanged_iff_of_contains {outcome : UnitOutcome}
    (hsymbols : ∀ word ∈ Text.identifiers source, symbols.contains word = true)
    (hrun : wrapUnit source symbols adapter candidates = .ok outcome) :
    outcome.isUnchanged = true ↔ outcome.patched = source := by
  obtain ⟨text, hsplice, -, hrun'⟩ := wrapUnit_eq_ok source symbols adapter candidates
  rw [hrun'] at hrun
  cases hrun
  rw [UnitOutcome.isUnchanged, List.isEmpty_iff, flatMap_edits_eq_nil_iff]
  exact survivors_eq_nil_iff_of_contains hsymbols hsplice

end Unit

theorem exists_wrapFunctions_eq_ok (source : String) (functions : List TaggedFunction)
    (adapter : String) : ∃ outcome, wrapFunctions source functions adapter = .ok outcome := by
  obtain ⟨_, -, -, hrun⟩ := wrapUnit_eq_ok source (.scan source) adapter (functions.map .ok)
  exact ⟨_, hrun⟩

/-- The unchanged flag is exact. A run is unchanged if and only if its text is
the source, and so a report is written back exactly when the text has changed:
otherwise its file is left alone, and if the text has changed and the path leads
to a file then the new text is written there. -/
theorem wrapFunctions_isUnchanged_iff (source : String) (functions : List TaggedFunction)
    (adapter : String) :
    ∃ outcome, wrapFunctions source functions adapter = .ok outcome ∧
      (outcome.isUnchanged = true ↔ outcome.patched = source) ∧
      ∀ (store : Store) (file : String),
        (outcome.patched = source →
          store.writeBack (.ofOutcome file outcome) = .ok (store, false)) ∧
        (∀ after written, store.writeBack (.ofOutcome file outcome) = .ok (after, written) →
          (written = true ↔ outcome.patched ≠ source)) ∧
        ∀ names, outcome.patched ≠ source → store.LeadsToFile file names →
          store.writeBack (.ofOutcome file outcome) =
            .ok (store.withFile names (.text outcome.patched), true) := by
  obtain ⟨outcome, hrun⟩ := exists_wrapFunctions_eq_ok source functions adapter
  have hflag : outcome.isUnchanged = true ↔ outcome.patched = source :=
    isUnchanged_iff_of_contains (fun word => (SymbolTable.contains_scan source word).mpr) hrun
  have hchanged (file : String) :
      (FileReport.ofOutcome file outcome).isChanged = true ↔ outcome.patched ≠ source := by
    rw [Ne, ← hflag, Bool.not_eq_true, ← Bool.not_eq_true']
    rfl
  refine ⟨outcome, hrun, hflag, fun store file => ⟨fun hsame => ?_, ?_, ?_⟩⟩
  · apply store.writeBack_of_unchanged
    rw [← Bool.not_eq_true, hchanged]
    exact not_not_intro hsame
  · intro after written hwrite
    rw [Store.eq_isChanged_of_writeBack hwrite, hchanged]
  · intro names hdiffers hleads
    exact Store.writeBack_of_leadsToFile hleads ((hchanged file).mpr hdiffers)

end CachedCalls
