/-
# Acceptance and planning

The first two gates of a unit separate a list of candidates into records that
go on and failures that do not. Both are described here by the elements that
pass: acceptance keeps the definitions whose name occurs once, planning keeps
the plans of those that can be planned. Separating a list never loses an
element, which is stated once for any pair of readings of the two sides.
-/

import CachedCalls.Proofs.Definition.Blame
import CachedCalls.SourceUnit

namespace CachedCalls

/-! ## Separating results -/

theorem toOption_eq_some_iff {ε α : Type} {result : Except ε α} {a : α} :
    result.toOption = some a ↔ result = .ok a := by
  cases result <;> simp [Except.toOption]

theorem partitionResults_fst {ε α : Type} (results : List (Except ε α)) :
    (partitionResults results).1 = results.filterMap Except.toOption := rfl

/-- The reason why a result is a failure. -/
def failureOf? {ε α : Type} : Except ε α → Option ε
  | .ok _ => none
  | .error e => some e

theorem failureOf?_eq_some_iff {ε α : Type} {result : Except ε α} {e : ε} :
    failureOf? result = some e ↔ result = .error e := by
  cases result <;> simp [failureOf?]

theorem partitionResults_snd {ε α : Type} (results : List (Except ε α)) :
    (partitionResults results).2 = results.filterMap failureOf? := rfl

/-- Whatever is read off the successes and off the failures, reading both sides
of the separation gives the readings of the list it came from. -/
theorem map_partitionResults_perm {ε α κ : Type} (onOk : α → κ) (onError : ε → κ)
    (results : List (Except ε α)) :
    ((partitionResults results).1.map onOk ++ (partitionResults results).2.map onError).Perm
      (results.map fun
        | .ok a => onOk a
        | .error e => onError e) := by
  induction results with
  | nil => exact .nil
  | cons result results ih =>
      cases result with
      | ok a => exact ih.cons (onOk a)
      | error e => exact List.perm_middle.trans (ih.cons (onError e))

/-! ## Acceptance -/

namespace Candidate

/-- A matched candidate is refused at the line of its record. -/
theorem toDefinition_ok (f : TaggedFunction) :
    toDefinition (.ok f) = f.toDefinition.mapError fun rejection => ⟨f.line, rejection⟩ := by
  unfold toDefinition
  cases hf : f.toDefinition with
  | error rejection => simp [bind, Except.bind, hf, Except.mapError, throw, throwThe,
      MonadExceptOf.throw]
  | ok d => simp [bind, Except.bind, hf, Except.mapError, pure, Except.pure]

/-- The definition a candidate becomes, if it becomes one. -/
def definition? (candidate : Candidate) : Option Definition :=
  (toDefinition candidate).toOption

theorem definition?_of_ok {candidate : Candidate} {d : Definition}
    (h : toDefinition candidate = .ok d) : definition? candidate = some d := by
  rw [definition?, h]
  rfl

theorem definition?_of_error {candidate : Candidate} {failure : Failure}
    (h : toDefinition candidate = .error failure) : definition? candidate = none := by
  rw [definition?, h]
  rfl

theorem definition?_eq_some_iff {candidate : Candidate} {d : Definition} :
    definition? candidate = some d ↔
      ∃ f, candidate = .ok f ∧ f.toDefinition = .ok d := by
  cases candidate with
  | error failure => simp [definition?, toDefinition, bind, Except.bind, Except.toOption]
  | ok f =>
      rw [definition?, toDefinition_ok]
      cases hf : f.toDefinition with
      | error rejection => simp [Except.mapError, Except.toOption, hf]
      | ok e => simp [Except.mapError, Except.toOption, hf]

end Candidate

/-- All definitions among the candidates, before names are compared. -/
def definitionsOf (candidates : List Candidate) : List Definition :=
  candidates.filterMap Candidate.definition?

/-- Names are counted, so the order of the candidates does not matter. -/
theorem isOverloaded_definitionsOf_perm {candidates others : List Candidate}
    (h : candidates.Perm others) (name : String) :
    isOverloaded (definitionsOf candidates) name = isOverloaded (definitionsOf others) name := by
  unfold isOverloaded definitionsOf
  rw [(h.filterMap Candidate.definition?).countP_eq]

theorem partitionResults_toDefinition_fst (candidates : List Candidate) :
    (partitionResults (candidates.map Candidate.toDefinition)).1 = definitionsOf candidates := by
  rw [partitionResults_fst, List.filterMap_map]
  rfl

theorem accept_fst (candidates : List Candidate) :
    (accept candidates).1 = (definitionsOf candidates).filter fun d =>
      !isOverloaded (definitionsOf candidates) d.name := by
  rw [accept, ← partitionResults_toDefinition_fst]

/-- What acceptance turns away: first the candidates that never became
definitions, then the overloads. -/
theorem accept_snd (candidates : List Candidate) :
    (accept candidates).2 =
      (candidates.filterMap fun candidate => failureOf? (Candidate.toDefinition candidate)) ++
        ((definitionsOf candidates).filter fun d =>
          isOverloaded (definitionsOf candidates) d.name).map
            fun d => ⟨d.line, d.name, .overloadedName⟩ := by
  have hrefused : (partitionResults (candidates.map Candidate.toDefinition)).2 =
      candidates.filterMap fun candidate => failureOf? (Candidate.toDefinition candidate) := by
    rw [partitionResults_snd, List.filterMap_map]
    rfl
  rw [accept, ← partitionResults_toDefinition_fst, ← hrefused]

theorem exists_tagged_of_mem_accept {candidates : List Candidate} {d : Definition}
    (h : d ∈ (accept candidates).1) : ∃ f, .ok f ∈ candidates ∧ f.toDefinition = .ok d := by
  rw [accept_fst, List.mem_filter, definitionsOf, List.mem_filterMap] at h
  obtain ⟨⟨candidate, hcandidate, hd⟩, -⟩ := h
  obtain ⟨f, rfl, hf⟩ := Candidate.definition?_eq_some_iff.mp hd
  exact ⟨f, hcandidate, hf⟩

/-- Accepted definitions have different names, because each name that occurs
twice is turned away both times. -/
theorem nodup_name_accept (candidates : List Candidate) :
    ((accept candidates).1.map (·.name)).Nodup := by
  rw [accept_fst, List.nodup_iff_pairwise_ne, List.pairwise_map, List.pairwise_filter,
    List.pairwise_iff_forall_sublist]
  intro a b hsublist ha _ hname
  have htwice : 2 ≤ (definitionsOf candidates).countP (·.name == a.name) := by
    simpa [← hname] using hsublist.countP_le (p := fun d : Definition => d.name == a.name)
  simp only [isOverloaded, Bool.not_eq_true', decide_eq_false_iff_not] at ha
  exact ha htwice

/-! ## Planning -/

theorem planAll_fst (source : String) (symbols : SymbolTable) (adapter : String)
    (definitions : List Definition) :
    (planAll source symbols adapter definitions).1 =
      definitions.filterMap fun d => (d.plan source symbols adapter).toOption := by
  rw [planAll, partitionResults_fst, List.filterMap_map]
  congr 1
  funext d
  rw [Function.comp_apply]
  cases d.plan source symbols adapter with
  | error rejection => rfl
  | ok plan => rfl

theorem planAll_snd (source : String) (symbols : SymbolTable) (adapter : String)
    (definitions : List Definition) :
    (planAll source symbols adapter definitions).2 =
      definitions.filterMap fun d =>
        (failureOf? (d.plan source symbols adapter)).map fun rejection => ⟨d.line, rejection⟩ := by
  rw [planAll, partitionResults_snd, List.filterMap_map]
  congr 1
  funext d
  rw [Function.comp_apply]
  cases d.plan source symbols adapter with
  | error rejection => rfl
  | ok plan => rfl

end CachedCalls
