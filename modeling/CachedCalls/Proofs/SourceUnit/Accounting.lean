/-
# No candidate is lost

Candidates leave a unit at six exits: a matcher has given up on them, their
record is refused, their name is taken twice, they cannot be planned, they
overlap another one, or they are wrapped. Every exit writes down a line and a
name. Each gate conserves these entries as a multiset, and conservation of the
whole unit is the sum of its gates. The report is in order on both sides: the
wrapped functions ascend in the source, and the failures by line and name.
-/

import CachedCalls.Proofs.SourceUnit.Survivors

namespace CachedCalls

/-! ## Entries -/

namespace Candidate

/-- The line and the name under which a candidate was supplied. -/
def entry : Candidate → Nat × String
  | .ok f => (f.line, f.name)
  | .error failure => (failure.line, failure.rejection.function)

end Candidate

namespace Definition

/-- The line and the name of a definition. -/
def entry (d : Definition) : Nat × String :=
  (d.line, d.name)

end Definition

namespace Plan

/-- The line and the name of a plan. -/
def entry (plan : Plan) : Nat × String :=
  (plan.line, plan.function)

end Plan

namespace WrappedFunction

/-- The line and the name under which a wrapped function is reported. -/
def entry (function : WrappedFunction) : Nat × String :=
  (function.line, function.name)

end WrappedFunction

namespace Failure

/-- The line and the name under which a failure is reported. -/
def entry (failure : Failure) : Nat × String :=
  (failure.line, failure.rejection.function)

end Failure

/-! ## What each gate conserves -/

/-- A gate that separates results conserves the entries it was given, provided
that each result carries the entry of what it came from. -/
theorem partitionResults_map_perm {ι ε α κ : Type} (onInput : ι → κ) (onOk : α → κ)
    (onError : ε → κ) {step : ι → Except ε α} (inputs : List ι)
    (hok : ∀ input a, step input = .ok a → onOk a = onInput input)
    (herror : ∀ input e, step input = .error e → onError e = onInput input) :
    ((partitionResults (inputs.map step)).1.map onOk ++
      (partitionResults (inputs.map step)).2.map onError).Perm (inputs.map onInput) := by
  refine (map_partitionResults_perm onOk onError (inputs.map step)).trans (.of_eq ?_)
  rw [List.map_map]
  apply List.map_congr_left
  intro input _
  rw [Function.comp_apply]
  cases hstep : step input with
  | ok a => exact hok input a hstep
  | error e => exact herror input e hstep

/-- A computation that blames one function fails with the entry of that
function, at whatever line it is reported. -/
theorem entry_of_mapError {α : Type} {result : Except Rejection α} {line : Nat} {name : String}
    {failure : Failure} (hblames : Blames name result)
    (h : result.mapError (fun rejection => (⟨line, rejection⟩ : Failure)) = .error failure) :
    failure.entry = (line, name) := by
  cases result with
  | ok a => cases h
  | error rejection =>
      cases h
      rw [Failure.entry, hblames rejection rfl]

theorem eq_ok_of_mapError {ε ε' α : Type} {result : Except ε α} {f : ε → ε'} {a : α}
    (h : result.mapError f = .ok a) : result = .ok a := by
  cases result with
  | ok b =>
      cases h
      rfl
  | error e => cases h

theorem toDefinition_perm (candidates : List Candidate) :
    ((partitionResults (candidates.map Candidate.toDefinition)).1.map Definition.entry ++
      (partitionResults (candidates.map Candidate.toDefinition)).2.map Failure.entry).Perm
        (candidates.map Candidate.entry) := by
  refine partitionResults_map_perm Candidate.entry Definition.entry Failure.entry candidates ?_ ?_
  · intro candidate d h
    cases candidate with
    | error failure => cases h
    | ok f =>
        rw [Candidate.toDefinition_ok] at h
        obtain ⟨hname, hline⟩ := TaggedFunction.name_line_of_toDefinition (eq_ok_of_mapError h)
        rw [Definition.entry, hname, hline]
        rfl
  · intro candidate failure h
    cases candidate with
    | error other =>
        cases h
        rfl
    | ok f =>
        rw [Candidate.toDefinition_ok] at h
        exact entry_of_mapError f.blames_toDefinition h

/-- Acceptance turns overloads away under their own entries. -/
theorem accept_perm (candidates : List Candidate) :
    ((accept candidates).1.map Definition.entry ++
      (accept candidates).2.map Failure.entry).Perm (candidates.map Candidate.entry) := by
  refine List.Perm.trans ?_ (toDefinition_perm candidates)
  let definitions := (partitionResults (candidates.map Candidate.toDefinition)).1
  have hsplit : (definitions.filter (fun d => isOverloaded definitions d.name) ++
      definitions.filter (fun d => !isOverloaded definitions d.name)).Perm definitions :=
    List.filter_append_perm _ _
  have hoverloads (overloads : List Definition) :
      (overloads.map fun d => (⟨d.line, d.name, .overloadedName⟩ : Failure)).map Failure.entry =
        overloads.map Definition.entry := by
    rw [List.map_map]
    rfl
  rw [List.perm_iff_count]
  intro entry
  have hcount := List.perm_iff_count.mp (hsplit.map Definition.entry) entry
  simp only [accept, hoverloads, List.map_append, List.count_append, definitions] at hcount ⊢
  omega

theorem planAll_perm (source : String) (symbols : SymbolTable) (adapter : String)
    (definitions : List Definition) :
    ((planAll source symbols adapter definitions).1.map Plan.entry ++
      (planAll source symbols adapter definitions).2.map Failure.entry).Perm
        (definitions.map Definition.entry) := by
  refine partitionResults_map_perm Definition.entry Plan.entry Failure.entry definitions ?_ ?_
  · intro d plan h
    obtain ⟨_, rfl⟩ := Definition.eq_planWith_of_plan (eq_ok_of_mapError h)
    rfl
  · intro d failure h
    exact entry_of_mapError (d.blames_plan source symbols adapter) h

theorem rejectOverlaps_perm (plans : List Plan) :
    ((rejectOverlaps plans).1.map Plan.entry ++
      (rejectOverlaps plans).2.map Failure.entry).Perm (plans.map Plan.entry) := by
  have hannotated := congrArg (List.map Plan.entry)
    (Plan.map_fst_withOverlaps [] (plans.mergeSort Plan.precedes))
  rw [List.map_map] at hannotated
  refine List.Perm.trans ?_ ((List.mergeSort_perm plans Plan.precedes).map Plan.entry)
  rw [← hannotated]
  refine partitionResults_map_perm _ Plan.entry Failure.entry _ ?_ ?_
  · rintro ⟨plan, other⟩ kept h
    cases other with
    | none =>
        cases h
        rfl
    | some name => cases h
  · rintro ⟨plan, other⟩ failure h
    cases other with
    | none => cases h
    | some name =>
        cases h
        rfl

/-! ## The order of failures -/

/-- Failures ascend by line, and on one line by name. -/
def Failure.NotAfter (a b : Failure) : Prop :=
  a.line < b.line ∨ a.line = b.line ∧ a.rejection.function ≤ b.rejection.function

theorem Failure.precedes_iff {a b : Failure} : a.precedes b = true ↔ a.NotAfter b := by
  simp [precedes, NotAfter]

theorem Failure.precedes_trans (a b c : Failure) (hab : a.precedes b = true)
    (hbc : b.precedes c = true) : a.precedes c = true := by
  rw [precedes_iff] at *
  rcases hab with hab | ⟨hab, hab'⟩ <;> rcases hbc with hbc | ⟨hbc, hbc'⟩
  · exact Or.inl (by omega)
  · exact Or.inl (by omega)
  · exact Or.inl (by omega)
  · exact Or.inr ⟨by omega, String.le_trans hab' hbc'⟩

theorem Failure.precedes_total (a b : Failure) : (a.precedes b || b.precedes a) = true := by
  rw [Bool.or_eq_true, precedes_iff, precedes_iff]
  rcases Nat.lt_trichotomy a.line b.line with h | h | h
  · exact Or.inl (Or.inl h)
  · rcases String.le_total a.rejection.function b.rejection.function with hle | hle
    · exact Or.inl (Or.inr ⟨h, hle⟩)
    · exact Or.inr (Or.inr ⟨h.symm, hle⟩)
  · exact Or.inr (Or.inl h)

theorem pairwise_notAfter_mergeSort (failures : List Failure) :
    (failures.mergeSort Failure.precedes).Pairwise Failure.NotAfter :=
  (List.pairwise_mergeSort Failure.precedes_trans Failure.precedes_total failures).imp
    Failure.precedes_iff.mp

/-! ## The unit -/

section Unit

variable (source : String) (symbols : SymbolTable) (adapter : String)
  (candidates : List Candidate)

theorem survivors_failuresOf_perm :
    ((survivors source symbols adapter candidates).map Plan.entry ++
      (failuresOf source symbols adapter candidates).map Failure.entry).Perm
        (candidates.map Candidate.entry) := by
  have haccept := accept_perm candidates
  have hplan := planAll_perm source symbols adapter (accept candidates).1
  have hoverlap := rejectOverlaps_perm (plansOf source symbols adapter candidates)
  have hsort := (List.mergeSort_perm ((accept candidates).2 ++
    (planAll source symbols adapter (accept candidates).1).2 ++
    (rejectOverlaps (plansOf source symbols adapter candidates)).2) Failure.precedes).map
      Failure.entry
  rw [List.perm_iff_count] at *
  intro entry
  have haccept := haccept entry
  have hplan := hplan entry
  have hoverlap := hoverlap entry
  have hsort := hsort entry
  -- Each gate balances, so the unit does.
  simp only [survivors, failuresOf, plansOf, List.map_append, List.count_append] at *
  omega

/-- Every candidate is reported exactly once, under its own line and name,
either as wrapped or as a failure. The edits are the renaming, the wrapper and
the forward declaration of each wrapped function, function by function in the
order of the report, in which footprints strictly ascend; failures are sorted by
line and name. -/
theorem wrapUnit_accounts_for_candidates :
    ∃ (outcome : UnitOutcome) (plans : List Plan),
      wrapUnit source symbols adapter candidates = .ok outcome ∧
      (outcome.wrapped.map WrappedFunction.entry ++ outcome.failures.map Failure.entry).Perm
        (candidates.map Candidate.entry) ∧
      outcome.wrapped = plans.map WrappedFunction.ofPlan ∧
      outcome.edits = plans.flatMap (fun plan =>
        [plan.rename, plan.wrapperInsertion, plan.forwardDeclaration]) ∧
      (∀ plan ∈ plans, ∃ f d, .ok f ∈ candidates ∧ f.toDefinition = .ok d ∧
        d.plan source symbols adapter = .ok plan) ∧
      plans.Pairwise (fun a b => a.footprint.start < b.footprint.start) ∧
      outcome.failures.Pairwise Failure.NotAfter := by
  obtain ⟨text, -, -, hrun⟩ := wrapUnit_eq_ok source symbols adapter candidates
  refine ⟨_, survivors source symbols adapter candidates, hrun, ?_, rfl, rfl, ?_, ?_, ?_⟩
  · rw [List.map_map]
    exact survivors_failuresOf_perm source symbols adapter candidates
  · intro plan hplan
    obtain ⟨d, haccepted, hd⟩ := mem_plansOf.mp (mem_plansOf_of_mem_survivors hplan)
    obtain ⟨f, hf, hdefinition⟩ := exists_tagged_of_mem_accept haccepted
    exact ⟨f, d, hf, hdefinition, hd⟩
  · exact pairwise_start_survivors source symbols adapter candidates
  · exact pairwise_notAfter_mergeSort _

end Unit

end CachedCalls
