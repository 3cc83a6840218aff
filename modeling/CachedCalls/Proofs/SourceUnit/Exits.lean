/-
# How each candidate leaves its unit

A run reports wrapped functions and failures, but not which candidate a failure
belongs to. This module gives every candidate of a list its exit, defined from
the gates and without the lists they pass on, and shows that the exits explain
the report completely: the failures of a run are those of the candidates that
leave by a failing exit, each once. Their order is strict as soon as failures
carry the places of their candidates. They ascend by line and name, and for one
line and name by the gate at which a candidate was lost and by its place.
-/

import CachedCalls.Proofs.SourceUnit.Accounting
import CachedCalls.Proofs.SourceUnit.Selection

namespace CachedCalls

/-- Failures that tie are about functions of one name. -/
theorem Failure.function_eq_of_notAfter {a b : Failure} (hab : a.NotAfter b) (hba : b.NotAfter a) :
    a.rejection.function = b.rejection.function := by
  rcases hab with hab | ⟨_, hab⟩ <;> rcases hba with hba | ⟨_, hba⟩
  · omega
  · omega
  · omega
  · exact String.le_antisymm hab hba

/-! ## The plan that gets in the way -/

namespace Plan

/-- The first plan in source order that meets `plan` and is another one. Plans
of one unit are told apart by their functions. -/
def rival? (plans : List Plan) (plan : Plan) : Option Plan :=
  (plans.mergeSort precedes).find? fun other => other.function != plan.function && other.meets plan

/-- Whether a plan has a rival does not depend on the order of the plans. -/
theorem isSome_rival?_perm {plans others : List Plan} (h : plans.Perm others) (plan : Plan) :
    (rival? plans plan).isSome = (rival? others plan).isSome := by
  rw [Bool.eq_iff_iff]
  simp only [rival?, List.find?_isSome, List.mem_mergeSort, h.mem_iff]

/-- Where functions are told apart by name, leaving a plan out of the list is
looking for another function. -/
theorem find?_meets_eq_find?_other {before later : List Plan} {plan : Plan}
    (hnames : ((before ++ plan :: later).map (·.function)).Nodup) :
    ((before ++ later).find? fun other => other.meets plan) =
      (before ++ plan :: later).find? fun other =>
        other.function != plan.function && other.meets plan := by
  have hother : ∀ other ∈ before ++ later, (other.function != plan.function) = true := by
    intro other hmem
    have hperm : (before ++ plan :: later).Perm (plan :: (before ++ later)) := List.perm_middle
    rw [(hperm.map _).nodup_iff, List.map_cons, List.nodup_cons] at hnames
    rw [bne_iff_ne]
    intro heq
    exact hnames.1 (List.mem_map.mpr ⟨other, hmem, heq⟩)
  have hcongr (l : List Plan) (hl : ∀ other ∈ l, other ∈ before ++ later) :
      (l.find? fun other => other.meets plan) =
        l.find? fun other => other.function != plan.function && other.meets plan := by
    induction l with
    | nil => rfl
    | cons other l ih =>
        rw [List.forall_mem_cons] at hl
        rw [List.find?_cons, List.find?_cons, hother other hl.1, Bool.true_and, ih hl.2]
  rw [List.find?_append, List.find?_append, List.find?_cons_of_neg (by simp),
    hcongr before (by simp_all), hcongr later (by simp_all)]

theorem allOverlaps_eq_map {before plans : List Plan}
    (hnames : ((before ++ plans).map (·.function)).Nodup) :
    allOverlaps before plans = plans.map fun plan =>
      (plan, ((before ++ plans).find? fun other =>
        other.function != plan.function && other.meets plan).map (·.function)) := by
  induction plans generalizing before with
  | nil => rfl
  | cons plan later ih =>
      have hstep : (before ++ [plan]) ++ later = before ++ plan :: later := by simp
      rw [allOverlaps, find?_meets_eq_find?_other hnames, ih (by rwa [hstep]), hstep]
      rfl

/-- The failure of a plan that has a rival. -/
def overlapFailure? (plans : List Plan) (plan : Plan) : Option Failure :=
  (rival? plans plan).map fun other =>
    ⟨plan.line, plan.function, .overlappingMatch other.function⟩

end Plan

/-- The failures of the scan for overlaps, said without the scan. -/
theorem rejectOverlaps_snd {plans : List Plan} (hnonempty : ∀ p ∈ plans, p.Nonempty)
    (hnames : (plans.map (·.function)).Nodup) :
    (rejectOverlaps plans).2 =
      (plans.mergeSort Plan.precedes).filterMap (Plan.overlapFailure? plans) := by
  have hsort := List.mergeSort_perm plans Plan.precedes
  have hscan : Plan.withOverlaps [] (plans.mergeSort Plan.precedes) =
      (plans.mergeSort Plan.precedes).map fun plan =>
        (plan, (Plan.rival? plans plan).map (·.function)) := by
    rw [Plan.withOverlaps_eq_allOverlaps (Plan.pairwise_mergeSort_precedes plans)
      (fun p hp => hnonempty p (hsort.mem_iff.mp hp)) fun _ _ => rfl]
    exact Plan.allOverlaps_eq_map (by rwa [List.nil_append, (hsort.map _).nodup_iff])
  rw [rejectOverlaps, hscan, partitionResults_snd, List.map_map, List.filterMap_map]
  congr 1
  funext plan
  rw [Function.comp_apply, Function.comp_apply, Plan.overlapFailure?]
  cases Plan.rival? plans plan with
  | none => rfl
  | some other => rfl

/-! ## Exits -/

/-- The ways in which a candidate can leave its unit. -/
inductive Exit where
  /-- It never became a definition. -/
  | refused (failure : Failure)
  /-- Another definition has its name. -/
  | overloaded (d : Definition)
  /-- Its definition could not be planned. -/
  | unplanned (failure : Failure)
  /-- It shares bytes with the definition of another plan. -/
  | overlapping (plan other : Plan)
  | wrapped (plan : Plan)
deriving DecidableEq, Repr

namespace Exit

/-- The failure reported for an exit. -/
def failure? : Exit → Option Failure
  | refused failure | unplanned failure => some failure
  | overloaded d => some ⟨d.line, d.name, .overloadedName⟩
  | overlapping plan other => some ⟨plan.line, plan.function, .overlappingMatch other.function⟩
  | wrapped _ => none

/-- The position of an exit along the way through a unit. -/
def gate : Exit → Nat
  | refused _ => 0
  | overloaded _ => 1
  | unplanned _ => 2
  | overlapping .. => 3
  | wrapped _ => 4

/-- The failure of an exit at one gate. -/
def failureAt? (gate : Nat) (exit : Exit) : Option Failure :=
  if exit.gate = gate then exit.failure? else none

end Exit

section Unit

variable (source : String) (symbols : SymbolTable) (adapter : String)
  (candidates : List Candidate)

/-- The exit by which a candidate of the list leaves. -/
def exitOf (candidate : Candidate) : Exit :=
  match Candidate.toDefinition candidate with
  | .error failure => .refused failure
  | .ok d =>
    if isOverloaded (definitionsOf candidates) d.name then .overloaded d
    else
      match d.plan source symbols adapter with
      | .error rejection => .unplanned ⟨d.line, rejection⟩
      | .ok plan =>
        match Plan.rival? (plansOf source symbols adapter candidates) plan with
        | some other => .overlapping plan other
        | none => .wrapped plan

/-- The candidate at place `i` leaves with `failure`. -/
def FailsAt (i : Nat) (failure : Failure) : Prop :=
  ∃ candidate, candidates[i]? = some candidate ∧
    (exitOf source symbols adapter candidates candidate).failure? = some failure

/-- The gate at which the candidate at place `i` leaves. -/
def gateAt (i : Nat) : Nat :=
  (candidates[i]?.map fun candidate =>
    (exitOf source symbols adapter candidates candidate).gate).getD 0

/-- One failure, with the place of its candidate, is found before another: at an
earlier gate, or at the same gate for an earlier candidate. -/
def FoundBefore (a b : Failure × Nat) : Prop :=
  gateAt source symbols adapter candidates a.2 < gateAt source symbols adapter candidates b.2 ∨
    gateAt source symbols adapter candidates a.2 = gateAt source symbols adapter candidates b.2 ∧
      a.2 < b.2

/-- The order of failures with the places of their candidates: by line and name,
and for one line and name as they are found. -/
def ReportedBefore (a b : Failure × Nat) : Prop :=
  a.1.NotAfter b.1 ∧
    (b.1.NotAfter a.1 → FoundBefore source symbols adapter candidates a b)

/-- The failures of all candidates in the order of a report, each with the place
of the candidate it belongs to. -/
structure IsReport (report : List (Failure × Nat)) : Prop where
  mem_iff : ∀ failure i,
    (failure, i) ∈ report ↔ FailsAt source symbols adapter candidates i failure
  ascending : report.Pairwise (ReportedBefore source symbols adapter candidates)

variable {source symbols adapter candidates}

theorem reportedBefore_asymm (a b : Failure × Nat)
    (hab : ReportedBefore source symbols adapter candidates a b) :
    ¬ ReportedBefore source symbols adapter candidates b a := by
  intro hba
  have hfirst := hab.2 hba.1
  have hsecond := hba.2 hab.1
  unfold FoundBefore at hfirst hsecond
  omega

theorem failsAt_unique {i : Nat} {f g : Failure}
    (hf : FailsAt source symbols adapter candidates i f)
    (hg : FailsAt source symbols adapter candidates i g) : f = g := by
  obtain ⟨candidate, hi, hf⟩ := hf
  obtain ⟨other, hi', hg⟩ := hg
  obtain rfl : candidate = other := Option.some.inj (hi.symm.trans hi')
  exact Option.some.inj (hf.symm.trans hg)

/-- A candidate has at most one entry in a report. -/
theorem IsReport.place_ne {failure g : Failure} {i k : Nat} {before after : List (Failure × Nat)}
    (h : IsReport source symbols adapter candidates (before ++ (failure, i) :: after))
    (hmem : (g, k) ∈ before ++ after) : k ≠ i := by
  rintro rfl
  have hboth : (g, k) ∈ before ++ (failure, k) :: after :=
    ((List.sublist_cons_self _ after).append_left before).subset hmem
  obtain rfl : g = failure :=
    failsAt_unique ((h.mem_iff g k).mp hboth) ((h.mem_iff failure k).mp (by simp))
  have hascending := h.ascending
  rw [List.pairwise_append, List.pairwise_cons] at hascending
  -- An entry that occurs twice would be reported before itself.
  have hself : ReportedBefore source symbols adapter candidates (g, k) (g, k) := by
    rcases List.mem_append.mp hmem with hmem | hmem
    · exact hascending.2.2 _ hmem _ List.mem_cons_self
    · exact hascending.2.1.1 _ hmem
  exact reportedBefore_asymm _ _ hself hself

variable (source symbols adapter candidates)

/-- The exits of a candidate, each with what decides it. -/
inductive Leaves (candidate : Candidate) : Exit → Prop where
  | refused {failure : Failure} (hdefinition : Candidate.toDefinition candidate = .error failure) :
      Leaves candidate (.refused failure)
  | overloaded {d : Definition} (hdefinition : Candidate.toDefinition candidate = .ok d)
      (hname : isOverloaded (definitionsOf candidates) d.name = true) :
      Leaves candidate (.overloaded d)
  | unplanned {d : Definition} {rejection : Rejection}
      (hdefinition : Candidate.toDefinition candidate = .ok d)
      (hname : isOverloaded (definitionsOf candidates) d.name = false)
      (hplan : d.plan source symbols adapter = .error rejection) :
      Leaves candidate (.unplanned ⟨d.line, rejection⟩)
  | overlapping {d : Definition} {plan other : Plan}
      (hdefinition : Candidate.toDefinition candidate = .ok d)
      (hname : isOverloaded (definitionsOf candidates) d.name = false)
      (hplan : d.plan source symbols adapter = .ok plan)
      (hrival : Plan.rival? (plansOf source symbols adapter candidates) plan = some other) :
      Leaves candidate (.overlapping plan other)
  | wrapped {d : Definition} {plan : Plan}
      (hdefinition : Candidate.toDefinition candidate = .ok d)
      (hname : isOverloaded (definitionsOf candidates) d.name = false)
      (hplan : d.plan source symbols adapter = .ok plan)
      (hrival : Plan.rival? (plansOf source symbols adapter candidates) plan = none) :
      Leaves candidate (.wrapped plan)

theorem leaves_exitOf (candidate : Candidate) :
    Leaves source symbols adapter candidates candidate
      (exitOf source symbols adapter candidates candidate) := by
  unfold exitOf
  split
  · next hdefinition => exact .refused hdefinition
  · next d hdefinition =>
    split
    · next hname => exact .overloaded hdefinition hname
    · next hname =>
      rw [Bool.not_eq_true] at hname
      split
      · next hplan => exact .unplanned hdefinition hname hplan
      · next hplan =>
        split
        · next hrival => exact .overlapping hdefinition hname hplan hrival
        · next hrival => exact .wrapped hdefinition hname hplan hrival

/-! ### The failures of each gate -/

variable {source symbols adapter candidates} in
theorem planned?_of_plan {candidate : Candidate} {d : Definition} {plan : Plan}
    (hd : Candidate.toDefinition candidate = .ok d)
    (hname : isOverloaded (definitionsOf candidates) d.name = false)
    (hplan : d.plan source symbols adapter = .ok plan) :
    planned? source symbols adapter candidates candidate = some plan := by
  rw [planned?, Candidate.definition?_of_ok hd, Option.bind_some, hname, hplan]
  rfl

section Gates

variable {source symbols adapter candidates} {candidate : Candidate} {exit : Exit}
  (h : Leaves source symbols adapter candidates candidate exit)
include h

theorem Leaves.failureAt?_zero :
    exit.failureAt? 0 = failureOf? (Candidate.toDefinition candidate) := by
  cases h with
  | refused hd => rw [hd]; rfl
  | overloaded hd _ => rw [hd]; rfl
  | unplanned hd _ _ => rw [hd]; rfl
  | overlapping hd _ _ _ => rw [hd]; rfl
  | wrapped hd _ _ _ => rw [hd]; rfl

theorem Leaves.failureAt?_one :
    exit.failureAt? 1 = (Candidate.definition? candidate).bind fun d =>
      if isOverloaded (definitionsOf candidates) d.name then
        some ⟨d.line, d.name, .overloadedName⟩
      else none := by
  cases h with
  | refused hd => rw [Candidate.definition?_of_error hd]; rfl
  | overloaded hd hname => rw [Candidate.definition?_of_ok hd, Option.bind_some, hname]; rfl
  | unplanned hd hname _ => rw [Candidate.definition?_of_ok hd, Option.bind_some, hname]; rfl
  | overlapping hd hname _ _ => rw [Candidate.definition?_of_ok hd, Option.bind_some, hname]; rfl
  | wrapped hd hname _ _ => rw [Candidate.definition?_of_ok hd, Option.bind_some, hname]; rfl

theorem Leaves.failureAt?_two :
    exit.failureAt? 2 = (Candidate.definition? candidate).bind fun d =>
      if isOverloaded (definitionsOf candidates) d.name then none
      else (failureOf? (d.plan source symbols adapter)).map
        fun rejection => ⟨d.line, rejection⟩ := by
  cases h with
  | refused hd => rw [Candidate.definition?_of_error hd]; rfl
  | overloaded hd hname => rw [Candidate.definition?_of_ok hd, Option.bind_some, hname]; rfl
  | unplanned hd hname hplan =>
      rw [Candidate.definition?_of_ok hd, Option.bind_some, hname, hplan]; rfl
  | overlapping hd hname hplan _ =>
      rw [Candidate.definition?_of_ok hd, Option.bind_some, hname, hplan]; rfl
  | wrapped hd hname hplan _ =>
      rw [Candidate.definition?_of_ok hd, Option.bind_some, hname, hplan]; rfl

theorem Leaves.failureAt?_three :
    exit.failureAt? 3 = (planned? source symbols adapter candidates candidate).bind
      (Plan.overlapFailure? (plansOf source symbols adapter candidates)) := by
  cases h with
  | refused hd => rw [planned?, Candidate.definition?_of_error hd]; rfl
  | overloaded hd hname =>
      rw [planned?, Candidate.definition?_of_ok hd, Option.bind_some, hname]; rfl
  | unplanned hd hname hplan =>
      rw [planned?, Candidate.definition?_of_ok hd, Option.bind_some, hname, hplan]; rfl
  | overlapping hd hname hplan hrival =>
      rw [planned?_of_plan hd hname hplan, Option.bind_some, Plan.overlapFailure?, hrival]; rfl
  | wrapped hd hname hplan hrival =>
      rw [planned?_of_plan hd hname hplan, Option.bind_some, Plan.overlapFailure?, hrival]; rfl

end Gates

/-! ### The report -/

/-- The failures of one gate, each with the place of its candidate. -/
def lostAt (gate : Nat) : List (Failure × Nat) :=
  valuesAt (fun candidate =>
    (exitOf source symbols adapter candidates candidate).failureAt? gate) candidates

/-- The plans of a unit in source order, each with the place of its candidate. -/
def plansInOrder : List (Plan × Nat) :=
  (valuesAt (planned? source symbols adapter candidates) candidates).mergeSort
    fun a b => a.1.precedes b.1

/-- The failures of the last gate, found in source order. -/
def lostToRivals : List (Failure × Nat) :=
  (plansInOrder source symbols adapter candidates).filterMap fun (plan, i) =>
    (Plan.overlapFailure? (plansOf source symbols adapter candidates) plan).map (·, i)

/-- All failures in the order in which a run finds them. -/
def foundFailures : List (Failure × Nat) :=
  lostAt source symbols adapter candidates 0 ++ lostAt source symbols adapter candidates 1 ++
    lostAt source symbols adapter candidates 2 ++ lostToRivals source symbols adapter candidates

theorem accept_snd_eq_lostAt :
    (accept candidates).2 = (lostAt source symbols adapter candidates 0 ++
      lostAt source symbols adapter candidates 1).map Prod.fst := by
  rw [accept_snd, List.map_append, lostAt, lostAt, map_fst_valuesAt, map_fst_valuesAt]
  congr 1
  · congr 1
    funext candidate
    rw [(leaves_exitOf source symbols adapter candidates candidate).failureAt?_zero]
  · rw [← List.filterMap_eq_map, List.filterMap_filter, definitionsOf, List.filterMap_filterMap]
    congr 1
    funext candidate
    rw [(leaves_exitOf source symbols adapter candidates candidate).failureAt?_one, definitionsOf]
    rfl

theorem planAll_snd_eq_lostAt :
    (planAll source symbols adapter (accept candidates).1).2 =
      (lostAt source symbols adapter candidates 2).map Prod.fst := by
  rw [planAll_snd, accept_fst, lostAt, map_fst_valuesAt, List.filterMap_filter, definitionsOf,
    List.filterMap_filterMap]
  congr 1
  funext candidate
  rw [(leaves_exitOf source symbols adapter candidates candidate).failureAt?_two, definitionsOf]
  congr 1
  funext d
  cases isOverloaded (candidates.filterMap Candidate.definition?) d.name with
  | true => rfl
  | false => rfl

theorem map_fst_plansInOrder :
    (plansInOrder source symbols adapter candidates).map Prod.fst =
      (plansOf source symbols adapter candidates).mergeSort Plan.precedes := by
  rw [plansInOrder, List.map_mergeSort (s := Plan.precedes) fun _ _ _ _ => rfl, map_fst_valuesAt,
    ← plansOf_eq_filterMap]

theorem rejectOverlaps_snd_eq_lostToRivals :
    (rejectOverlaps (plansOf source symbols adapter candidates)).2 =
      (lostToRivals source symbols adapter candidates).map Prod.fst := by
  rw [rejectOverlaps_snd nonempty_of_mem_plansOf
    (nodup_function_plansOf source symbols adapter candidates), ← map_fst_plansInOrder,
    lostToRivals, List.filterMap_map, List.map_filterMap]
  congr 1
  funext ⟨plan, i⟩
  rw [Option.map_map]
  exact (Option.map_id' ..).symm

theorem failuresOf_eq_foundFailures :
    failuresOf source symbols adapter candidates =
      ((foundFailures source symbols adapter candidates).map Prod.fst).mergeSort
        Failure.precedes := by
  rw [failuresOf, accept_snd_eq_lostAt source symbols adapter, planAll_snd_eq_lostAt,
    rejectOverlaps_snd_eq_lostToRivals, foundFailures, ← List.map_append, ← List.map_append]

variable {source symbols adapter candidates}

theorem mem_lostAt_iff {gate i : Nat} {failure : Failure} :
    (failure, i) ∈ lostAt source symbols adapter candidates gate ↔
      FailsAt source symbols adapter candidates i failure ∧
        gateAt source symbols adapter candidates i = gate := by
  rw [lostAt, mem_valuesAt_iff, ValueAt, FailsAt, gateAt]
  constructor
  · rintro ⟨candidate, hi, hfailure⟩
    rw [Exit.failureAt?] at hfailure
    split_ifs at hfailure with hgate
    exact ⟨⟨candidate, hi, hfailure⟩, by simpa [hi] using hgate⟩
  · rintro ⟨⟨candidate, hi, hfailure⟩, hgate⟩
    rw [hi, Option.map_some, Option.getD_some] at hgate
    exact ⟨candidate, hi, by rw [Exit.failureAt?, if_pos hgate, hfailure]⟩

theorem mem_lostToRivals_iff {i : Nat} {failure : Failure} :
    (failure, i) ∈ lostToRivals source symbols adapter candidates ↔
      (failure, i) ∈ lostAt source symbols adapter candidates 3 := by
  rw [lostToRivals, List.mem_filterMap, lostAt, mem_valuesAt_iff]
  constructor
  · rintro ⟨⟨plan, j⟩, hplan, hentry⟩
    obtain ⟨_, hfailure, heq⟩ := Option.map_eq_some_iff.mp hentry
    obtain ⟨rfl, rfl⟩ := Prod.mk.inj heq
    obtain ⟨candidate, hi, hplanned⟩ := mem_valuesAt_iff.mp (List.mem_mergeSort.mp hplan)
    refine ⟨candidate, hi, ?_⟩
    dsimp only
    rw [(leaves_exitOf source symbols adapter candidates candidate).failureAt?_three, hplanned]
    exact hfailure
  · rintro ⟨candidate, hi, hfailure⟩
    dsimp only at hfailure
    rw [(leaves_exitOf source symbols adapter candidates candidate).failureAt?_three,
      Option.bind_eq_some_iff] at hfailure
    obtain ⟨plan, hplanned, hfailure⟩ := hfailure
    refine ⟨(plan, i), List.mem_mergeSort.mpr (mem_valuesAt_iff.mpr ⟨candidate, hi, hplanned⟩), ?_⟩
    simp [hfailure]

theorem gateAt_lt_of_failsAt {i : Nat} {failure : Failure}
    (h : FailsAt source symbols adapter candidates i failure) :
    gateAt source symbols adapter candidates i < 4 := by
  obtain ⟨candidate, hi, hfailure⟩ := h
  rw [gateAt, hi, Option.map_some, Option.getD_some]
  cases hexit : exitOf source symbols adapter candidates candidate with
  | wrapped plan => simp [hexit, Exit.failure?] at hfailure
  | refused failure => simp [Exit.gate]
  | overloaded d => simp [Exit.gate]
  | unplanned failure => simp [Exit.gate]
  | overlapping plan other => simp [Exit.gate]

theorem mem_foundFailures_iff {i : Nat} {failure : Failure} :
    (failure, i) ∈ foundFailures source symbols adapter candidates ↔
      FailsAt source symbols adapter candidates i failure := by
  simp only [foundFailures, List.mem_append, mem_lostToRivals_iff, mem_lostAt_iff]
  constructor
  · rintro (((h | h) | h) | h) <;> exact h.1
  · intro h
    have hgate := gateAt_lt_of_failsAt h
    simp only [h, true_and]
    omega

theorem gateAt_of_mem_lostAt {gate : Nat} {entry : Failure × Nat}
    (h : entry ∈ lostAt source symbols adapter candidates gate) :
    gateAt source symbols adapter candidates entry.2 = gate :=
  (mem_lostAt_iff.mp h).2

theorem gateAt_of_mem_lostToRivals {entry : Failure × Nat}
    (h : entry ∈ lostToRivals source symbols adapter candidates) :
    gateAt source symbols adapter candidates entry.2 = 3 :=
  gateAt_of_mem_lostAt (mem_lostToRivals_iff.mp h)

variable (source symbols adapter candidates)

theorem pairwise_lostAt (gate : Nat) :
    (lostAt source symbols adapter candidates gate).Pairwise
      (FoundBefore source symbols adapter candidates) := by
  apply (pairwise_snd_valuesAt _ candidates).imp_of_mem
  intro a b ha hb hab
  exact Or.inr ⟨(gateAt_of_mem_lostAt ha).trans (gateAt_of_mem_lostAt hb).symm, hab⟩

/-- No two failures of the last gate have one name, so none of them tie. -/
theorem pairwise_lostToRivals :
    (lostToRivals source symbols adapter candidates).Pairwise fun a b =>
      a.1.rejection.function ≠ b.1.rejection.function := by
  have hnames : ((plansInOrder source symbols adapter candidates).map
      (fun entry => entry.1.function)).Nodup := by
    have hsort := (List.mergeSort_perm (plansOf source symbols adapter candidates)
      Plan.precedes).map (·.function)
    rw [← map_fst_plansInOrder, List.map_map] at hsort
    exact hsort.nodup_iff.mpr (nodup_function_plansOf source symbols adapter candidates)
  rw [List.nodup_iff_pairwise_ne, List.pairwise_map] at hnames
  rw [lostToRivals, List.pairwise_filterMap]
  apply hnames.imp
  rintro ⟨plan, i⟩ ⟨other, j⟩ hne a ha b hb
  simp only [Plan.overlapFailure?, Option.map_map, Option.map_eq_some_iff] at ha hb
  obtain ⟨_, -, rfl⟩ := ha
  obtain ⟨_, -, rfl⟩ := hb
  exact hne

/-- Failures that tie are found in the order of their gates and places. -/
theorem pairwise_foundFailures :
    (foundFailures source symbols adapter candidates).Pairwise fun a b =>
      a.1.NotAfter b.1 → b.1.NotAfter a.1 →
        FoundBefore source symbols adapter candidates a b := by
  have hlost (gate : Nat) : (lostAt source symbols adapter candidates gate).Pairwise fun a b =>
      a.1.NotAfter b.1 → b.1.NotAfter a.1 → FoundBefore source symbols adapter candidates a b :=
    (pairwise_lostAt source symbols adapter candidates gate).imp fun h _ _ => h
  have hrivals : (lostToRivals source symbols adapter candidates).Pairwise fun a b =>
      a.1.NotAfter b.1 → b.1.NotAfter a.1 →
        FoundBefore source symbols adapter candidates a b := by
    apply (pairwise_lostToRivals source symbols adapter candidates).imp
    intro a b hne hab hba
    exact absurd (Failure.function_eq_of_notAfter hab hba) hne
  simp only [foundFailures, List.pairwise_append, List.mem_append]
  refine ⟨⟨⟨hlost 0, hlost 1, ?_⟩, hlost 2, ?_⟩, hrivals, ?_⟩
  · intro a ha b hb _ _
    have hga := gateAt_of_mem_lostAt ha
    have hgb := gateAt_of_mem_lostAt hb
    exact Or.inl (by omega)
  · rintro a (ha | ha) b hb _ _ <;>
    · have hga := gateAt_of_mem_lostAt ha
      have hgb := gateAt_of_mem_lostAt hb
      exact Or.inl (by omega)
  · rintro a ((ha | ha) | ha) b hb _ _ <;>
    · have hga := gateAt_of_mem_lostAt ha
      have hgb := gateAt_of_mem_lostToRivals hb
      exact Or.inl (by omega)

/-- The failures of a run are the report of its candidates. -/
theorem exists_isReport :
    ∃ report, IsReport source symbols adapter candidates report ∧
      failuresOf source symbols adapter candidates = report.map Prod.fst := by
  let le : Failure × Nat → Failure × Nat → Bool := fun a b => a.1.precedes b.1
  refine ⟨(foundFailures source symbols adapter candidates).mergeSort le, ⟨?_, ?_⟩, ?_⟩
  · intro failure i
    rw [List.mem_mergeSort, mem_foundFailures_iff]
  · have hstable := pairwise_mergeSort_of_ties le
      (fun a b c => Failure.precedes_trans a.1 b.1 c.1) (fun a b => Failure.precedes_total a.1 b.1)
      (pairwise_foundFailures source symbols adapter candidates)
    apply hstable.imp
    rintro a b ⟨hab, htie⟩
    simp only [le, Failure.precedes_iff] at hab htie
    exact ⟨hab, fun hba => htie hba hab hba⟩
  · rw [failuresOf_eq_foundFailures, List.map_mergeSort (s := Failure.precedes) fun _ _ _ _ => rfl]

/-- Without their order, the failures of a run are those of the exits. -/
theorem failuresOf_perm_filterMap :
    (failuresOf source symbols adapter candidates).Perm
      (candidates.filterMap fun candidate =>
        (exitOf source symbols adapter candidates candidate).failure?) := by
  obtain ⟨report, hreport, hfailures⟩ := exists_isReport source symbols adapter candidates
  rw [hfailures, ← map_fst_valuesAt]
  apply List.Perm.map
  rw [List.perm_ext_iff_of_nodup]
  · rintro ⟨failure, i⟩
    rw [hreport.mem_iff, mem_valuesAt_iff]
    rfl
  · exact nodup_of_pairwise_of_asymm reportedBefore_asymm hreport.ascending
  · exact nodup_of_pairwise_of_asymm (fun _ _ => Nat.lt_asymm) (pairwise_snd_valuesAt _ candidates)

end Unit

end CachedCalls
