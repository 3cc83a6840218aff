/-
# Which candidates are wrapped

The gates of a unit compare definitions and plans, whereas the question a
caller asks is about candidates: will the one at this place of my list be
wrapped? The answer is given here in terms of places alone. A candidate is
wrapped if and only if it becomes a definition, no candidate at another place
becomes a definition of the same name, the definition can be planned, and no
byte of its footprint belongs to another candidate of which the same can be
said. Places are needed because a list may repeat a candidate, and then each
copy is another one for its twin.
-/

import CachedCalls.Proofs.Places
import CachedCalls.Proofs.SourceUnit.Survivors

namespace CachedCalls

/-! ## Candidates at their places -/

/-- The candidate at place `i` becomes the definition `d`. -/
def BecomesAt (candidates : List Candidate) (i : Nat) (d : Definition) : Prop :=
  ∃ f, candidates[i]? = some (.ok f) ∧ f.toDefinition = .ok d

/-- The candidate at place `i` becomes the definition `d`, and no candidate at
another place becomes a definition of that name. -/
structure UniqueAt (candidates : List Candidate) (i : Nat) (d : Definition) : Prop where
  becomes : BecomesAt candidates i d
  alone : ∀ j e, j ≠ i → BecomesAt candidates j e → e.name ≠ d.name

theorem becomesAt_iff_valueAt {candidates : List Candidate} {i : Nat} {d : Definition} :
    BecomesAt candidates i d ↔ ValueAt Candidate.definition? candidates i d := by
  constructor
  · rintro ⟨f, hi, hf⟩
    exact ⟨.ok f, hi, Candidate.definition?_eq_some_iff.mpr ⟨f, rfl, hf⟩⟩
  · rintro ⟨candidate, hi, hd⟩
    obtain ⟨f, rfl, hf⟩ := Candidate.definition?_eq_some_iff.mp hd
    exact ⟨f, hi, hf⟩

/-- Counting names is comparing with every other place. -/
theorem uniqueAt_iff {candidates : List Candidate} {i : Nat} {d : Definition} :
    UniqueAt candidates i d ↔
      BecomesAt candidates i d ∧ isOverloaded (definitionsOf candidates) d.name = false := by
  have hiff (hvalue : ValueAt Candidate.definition? candidates i d) :
      isOverloaded (definitionsOf candidates) d.name = false ↔
        ∀ j e, j ≠ i → ValueAt Candidate.definition? candidates j e →
          (e.name == d.name) = false := by
    have hpos : 0 < (definitionsOf candidates).countP (·.name == d.name) :=
      List.countP_pos_iff.mpr
        ⟨d, mem_filterMap_iff_exists_valueAt.mpr ⟨i, hvalue⟩, beq_self_eq_true _⟩
    rw [← countP_filterMap_eq_one_iff (P := fun e : Definition => e.name == d.name) hvalue
      (beq_self_eq_true _), ← definitionsOf, isOverloaded, decide_eq_false_iff_not]
    omega
  constructor
  · rintro ⟨hbecomes, halone⟩
    refine ⟨hbecomes, (hiff (becomesAt_iff_valueAt.mp hbecomes)).mpr fun j e hj he => ?_⟩
    exact beq_eq_false_iff_ne.mpr (halone j e hj (becomesAt_iff_valueAt.mpr he))
  · rintro ⟨hbecomes, hover⟩
    refine ⟨hbecomes, fun j e hj he => ?_⟩
    have halone := (hiff (becomesAt_iff_valueAt.mp hbecomes)).mp hover
    exact beq_eq_false_iff_ne.mp (halone j e hj (becomesAt_iff_valueAt.mp he))

/-- Different names stay different when they are mangled. -/
theorem mangledName_injective : Function.Injective mangledName := by
  intro a b h
  unfold mangledName at h
  exact (String.append_left_inj mangleSuffix).mp h

section Unit

variable (source : String) (symbols : SymbolTable) (adapter : String)
  (candidates : List Candidate)

/-- The candidate at place `i` becomes a definition with a name of its own,
whose plan is `plan`. -/
def PlannedAt (i : Nat) (plan : Plan) : Prop :=
  ∃ d, UniqueAt candidates i d ∧ d.plan source symbols adapter = .ok plan

/-- The candidate at place `i` is planned, and no planned candidate at another
place shares a byte with it. -/
structure WrappableAt (i : Nat) (plan : Plan) : Prop where
  planned : PlannedAt source symbols adapter candidates i plan
  apart : ∀ j other, j ≠ i → PlannedAt source symbols adapter candidates j other →
    ¬ ∃ offset, plan.footprint.Covers offset ∧ other.footprint.Covers offset

/-- The first two gates for a single candidate of the list. -/
def planned? (candidate : Candidate) : Option Plan :=
  (Candidate.definition? candidate).bind fun d =>
    if isOverloaded (definitionsOf candidates) d.name then none
    else (d.plan source symbols adapter).toOption

/-- All gates for a single candidate of the list. -/
def survivor? (candidate : Candidate) : Option Plan :=
  (planned? source symbols adapter candidates candidate).filter
    (Plan.isAlone (plansOf source symbols adapter candidates))

theorem plansOf_eq_filterMap :
    plansOf source symbols adapter candidates =
      candidates.filterMap (planned? source symbols adapter candidates) := by
  rw [plansOf, planAll_fst, accept_fst, definitionsOf, List.filterMap_filter,
    List.filterMap_filterMap]
  congr 1
  funext candidate
  rw [planned?, definitionsOf]
  congr 1
  funext d
  cases isOverloaded (candidates.filterMap Candidate.definition?) d.name with
  | true => rfl
  | false => rfl

variable {source symbols adapter candidates}

theorem plannedAt_iff_valueAt {i : Nat} {plan : Plan} :
    PlannedAt source symbols adapter candidates i plan ↔
      ValueAt (planned? source symbols adapter candidates) candidates i plan := by
  constructor
  · rintro ⟨d, hunique, hplan⟩
    obtain ⟨hbecomes, hover⟩ := uniqueAt_iff.mp hunique
    obtain ⟨candidate, hi, hd⟩ := becomesAt_iff_valueAt.mp hbecomes
    refine ⟨candidate, hi, Option.bind_eq_some_iff.mpr ⟨d, hd, ?_⟩⟩
    rw [hover, if_neg Bool.false_ne_true]
    exact toOption_eq_some_iff.mpr hplan
  · rintro ⟨candidate, hi, hplanned⟩
    obtain ⟨d, hd, hplan⟩ := Option.bind_eq_some_iff.mp hplanned
    split_ifs at hplan with hover
    refine ⟨d, uniqueAt_iff.mpr ⟨becomesAt_iff_valueAt.mpr ⟨candidate, hi, hd⟩, ?_⟩, ?_⟩
    · simpa using hover
    · exact toOption_eq_some_iff.mp hplan

theorem mem_plansOf_iff_exists_plannedAt {plan : Plan} :
    plan ∈ plansOf source symbols adapter candidates ↔
      ∃ i, PlannedAt source symbols adapter candidates i plan := by
  rw [plansOf_eq_filterMap, mem_filterMap_iff_exists_valueAt]
  simp only [plannedAt_iff_valueAt]

/-- Counting plans that share a byte is comparing with every other place. -/
theorem wrappableAt_iff_valueAt {i : Nat} {plan : Plan} :
    WrappableAt source symbols adapter candidates i plan ↔
      ValueAt (survivor? source symbols adapter candidates) candidates i plan := by
  have hiff (hplanned : PlannedAt source symbols adapter candidates i plan) :
      Plan.isAlone (plansOf source symbols adapter candidates) plan = true ↔
        ∀ j other, j ≠ i → PlannedAt source symbols adapter candidates j other →
          ¬ ∃ offset, plan.footprint.Covers offset ∧ other.footprint.Covers offset := by
    have hself : plan.meets plan = true := Span.overlaps_self
      (nonempty_of_mem_plansOf plan (mem_plansOf_iff_exists_plannedAt.mpr ⟨i, hplanned⟩))
    rw [Plan.isAlone, beq_iff_eq, plansOf_eq_filterMap,
      countP_filterMap_eq_one_iff (plannedAt_iff_valueAt.mp hplanned) hself]
    simp only [plannedAt_iff_valueAt, ← Span.overlaps_iff_exists_covers, ← Bool.not_eq_true,
      Plan.meets]
  constructor
  · rintro ⟨hplanned, hapart⟩
    obtain ⟨candidate, hi, hplan⟩ := plannedAt_iff_valueAt.mp hplanned
    exact ⟨candidate, hi, Option.filter_eq_some_iff.mpr ⟨hplan, (hiff hplanned).mpr hapart⟩⟩
  · rintro ⟨candidate, hi, hplan⟩
    obtain ⟨hplan, halone⟩ := Option.filter_eq_some_iff.mp hplan
    have hplanned : PlannedAt source symbols adapter candidates i plan :=
      plannedAt_iff_valueAt.mpr ⟨candidate, hi, hplan⟩
    exact ⟨hplanned, (hiff hplanned).mp halone⟩

variable (source symbols adapter candidates)

theorem survivors_perm_filterMap :
    (survivors source symbols adapter candidates).Perm
      (candidates.filterMap (survivor? source symbols adapter candidates)) := by
  have hfilter := List.filter_filterMap (f := planned? source symbols adapter candidates)
    (p := Plan.isAlone (plansOf source symbols adapter candidates)) (l := candidates)
  rw [← plansOf_eq_filterMap] at hfilter
  rw [survivors, rejectOverlaps_fst nonempty_of_mem_plansOf]
  exact ((List.mergeSort_perm _ _).filter _).trans (.of_eq hfilter)

/-- Which candidates are wrapped, exactly. The places of the wrapped candidates
can be listed in the order of the report, without repetition; they are the
places at which a candidate is wrappable, and the report and the edits are those
of the plans found there. No byte belongs to two wrapped functions, and neither
their names nor their mangled names repeat. -/
theorem wrapUnit_wrapped_iff_wrappableAt :
    ∃ outcome places plans,
      wrapUnit source symbols adapter candidates = .ok outcome ∧
      outcome.wrapped = plans.map WrappedFunction.ofPlan ∧
      outcome.edits = plans.flatMap Plan.edits ∧
      places.Nodup ∧
      List.Forall₂ (WrappableAt source symbols adapter candidates) places plans ∧
      (∀ i, i ∈ places ↔ ∃ plan, WrappableAt source symbols adapter candidates i plan) ∧
      plans.Pairwise (fun a b =>
        ¬ ∃ offset, a.footprint.Covers offset ∧ b.footprint.Covers offset) ∧
      (outcome.wrapped.map (·.name)).Nodup ∧
      (outcome.wrapped.map (·.mangledName)).Nodup := by
  obtain ⟨text, -, -, hrun⟩ := wrapUnit_eq_ok source symbols adapter candidates
  obtain ⟨unsorted, hnodup, hmem, hvalues⟩ :=
    exists_places (survivor? source symbols adapter candidates) candidates
  -- The survivors are reported in source order, so their places are rearranged with them.
  obtain ⟨places, hplaces, hperm⟩ := List.perm_comp_forall₂
    (survivors_perm_filterMap source symbols adapter candidates) hvalues.flip
  have hnames := nodup_function_survivors source symbols adapter candidates
  refine ⟨_, places, survivors source symbols adapter candidates, hrun, rfl, rfl,
    hperm.nodup_iff.mpr hnodup, hplaces.flip.imp fun i plan => wrappableAt_iff_valueAt.mpr,
    fun i => ?_, ?_, ?_, ?_⟩
  · rw [hperm.mem_iff, hmem]
    simp only [wrappableAt_iff_valueAt]
  · apply (pairwise_survivors source symbols adapter candidates).imp
    rintro a b hab ⟨offset, ha, hb⟩
    exact Nat.not_lt.mpr hab (Nat.lt_of_le_of_lt hb.1 ha.2)
  · rw [List.map_map]
    exact hnames
  · have hmangled : ((survivors source symbols adapter candidates).map
        WrappedFunction.ofPlan).map (·.mangledName) =
        ((survivors source symbols adapter candidates).map (·.function)).map mangledName := by
      rw [List.map_map, List.map_map]
      apply List.map_congr_left
      intro plan hplan
      obtain ⟨d, _, _, -, rfl⟩ := standsIn_of_mem_survivors plan hplan
      rfl
    rw [hmangled]
    exact hnames.map mangledName_injective

end Unit

end CachedCalls
