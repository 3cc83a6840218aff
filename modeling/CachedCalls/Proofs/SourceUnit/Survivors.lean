/-
# The plans that survive

What is left after the three gates of a unit is a list of plans whose
footprints stand one behind the other. Each plan brings three edits, and the
edits of neighbouring plans may meet at one offset: the wrapper of the first,
the declaration of the second and the renaming of the second all start where
one definition ends and the next begins. Their ranks still put them in one
strict order, in which every edit starts behind the bytes taken by those in
front of it. The batch is therefore always accepted, for any candidates at all.
-/

import CachedCalls.Proofs.Edit.Splice
import CachedCalls.Proofs.SourceUnit.Overlap
import Mathlib.Data.List.Perm.Basic

namespace CachedCalls

open Text

/-! ## Edits of one plan -/

namespace Plan

/-- The edits of a plan in the order of their positions. -/
def editsInOrder (plan : Plan) : List Edit :=
  [plan.forwardDeclaration, plan.rename, plan.wrapperInsertion]

theorem edits_perm_editsInOrder (plan : Plan) : plan.edits.Perm plan.editsInOrder :=
  (List.perm_append_comm : ([plan.rename, plan.wrapperInsertion] ++
    [plan.forwardDeclaration]).Perm ([plan.forwardDeclaration] ++ _))

/-- A plan stands in a source: it was made from a definition whose offsets fit
the source. -/
def StandsIn (source : String) (plan : Plan) : Prop :=
  ∃ (d : Definition) (adapter parameterList : String),
    d.Placed source ∧ plan = d.planWith adapter parameterList

theorem StandsIn.nonempty {source : String} {plan : Plan} (h : plan.StandsIn source) :
    plan.Nonempty := by
  obtain ⟨d, adapter, parameterList, hplaced, rfl⟩ := h
  exact hplaced.start_lt_stop

theorem StandsIn.fits {source : String} {plan : Plan} (h : plan.StandsIn source) :
    ∀ edit ∈ plan.edits, edit.Fits source := by
  obtain ⟨d, adapter, parameterList, hplaced, rfl⟩ := h
  have hname := le_size_of_isBoundary hplaced.nameEnd_isBoundary
  have hstart := le_size_of_isBoundary hplaced.start_isBoundary
  have hstop := le_size_of_isBoundary hplaced.stop_isBoundary
  intro edit hedit
  simp only [edits, List.mem_cons, List.not_mem_nil, or_false] at hedit
  rcases hedit with rfl | rfl | rfl
  · exact ⟨hplaced.start_le_nameEnd, hname, hplaced.start_isBoundary, hplaced.nameEnd_isBoundary⟩
  · exact ⟨Nat.le_refl _, hstop, hplaced.stop_isBoundary, hplaced.stop_isBoundary⟩
  · exact ⟨Nat.le_refl _, hstart, hplaced.start_isBoundary, hplaced.start_isBoundary⟩

/-- The order of the edits of one plan: the declaration, the renaming at the
same offset, and behind both the wrapper. -/
theorem StandsIn.pairwise_editsInOrder {source : String} {plan : Plan}
    (h : plan.StandsIn source) :
    plan.editsInOrder.Pairwise fun a b => a.Before b ∧ a.span.stop ≤ b.span.start := by
  obtain ⟨d, adapter, parameterList, hplaced, rfl⟩ := h
  have hname := hplaced.nameEnd_le_stop
  have hstop := hplaced.start_lt_stop
  simp only [editsInOrder, List.pairwise_cons, List.mem_cons, List.not_mem_nil, or_false,
    forall_eq_or_imp, forall_eq, List.Pairwise.nil, false_implies, implies_true, and_true]
  simp only [Definition.planWith, Definition.renameSpan, Edit.Before, Edit.span, Edit.rank,
    Span.empty, true_and]
  omega

/-- Where one footprint ends before the next begins, every edit of the first
plan stands in front of every edit of the second. -/
theorem StandsIn.before_of_stop_le_start {source : String} {a b : Plan}
    (ha : a.StandsIn source) (hb : b.StandsIn source)
    (hab : a.footprint.stop ≤ b.footprint.start) :
    ∀ x ∈ a.editsInOrder, ∀ y ∈ b.editsInOrder,
      x.Before y ∧ x.span.stop ≤ y.span.start := by
  obtain ⟨d, adapter, parameterList, hd, rfl⟩ := ha
  obtain ⟨e, adapter', parameterList', he, rfl⟩ := hb
  have hdname := hd.nameEnd_le_stop
  have hdstop := hd.start_lt_stop
  have hestop := he.start_lt_stop
  replace hab : d.body.stop ≤ e.declarationStart := hab
  intro x hx y hy
  simp only [editsInOrder, List.mem_cons, List.not_mem_nil, or_false] at hx hy
  -- Only the wrapper of the first plan can start where an edit of the second does.
  rcases hx with rfl | rfl | rfl <;> rcases hy with rfl | rfl | rfl <;>
    simp only [Definition.planWith, Definition.renameSpan, Edit.Before, Edit.span, Edit.rank,
      Span.empty] <;>
    omega

end Plan

/-! ## Edits of plans that stand one behind the other -/

section Batch

variable {source : String} {plans : List Plan} (hstands : ∀ plan ∈ plans, plan.StandsIn source)
  (hbehind : plans.Pairwise fun a b => a.footprint.stop ≤ b.footprint.start)
include hstands

theorem fits_of_mem_flatMap_edits : ∀ edit ∈ plans.flatMap Plan.edits, edit.Fits source := by
  intro edit hedit
  obtain ⟨plan, hplan, hedit⟩ := List.mem_flatMap.mp hedit
  exact (hstands plan hplan).fits edit hedit

include hbehind

theorem pairwise_flatMap_editsInOrder :
    (plans.flatMap Plan.editsInOrder).Pairwise fun a b =>
      a.Before b ∧ a.span.stop ≤ b.span.start := by
  rw [List.pairwise_flatMap]
  refine ⟨fun plan hplan => (hstands plan hplan).pairwise_editsInOrder, ?_⟩
  apply hbehind.imp_of_mem
  intro a b ha hb hab
  exact (hstands a ha).before_of_stop_le_start (hstands b hb) hab

/-- Sorting the batch interleaves nothing: the edits of each plan stay
together, in the order of the plans. -/
theorem inOrder_flatMap_edits :
    Edit.inOrder (plans.flatMap Plan.edits) = plans.flatMap Plan.editsInOrder := by
  apply Edit.inOrder_eq_of_before
  · exact List.Perm.flatMap_left plans fun plan _ => plan.edits_perm_editsInOrder
  · exact (pairwise_flatMap_editsInOrder hstands hbehind).imp And.left

/-- Such a batch is applied, and the loop over the buffer runs to its end. -/
theorem apply_flatMap_edits :
    ∃ text, Edit.splice? source 0 (plans.flatMap Plan.editsInOrder) = some text ∧
      Edit.applyBackwards source (Edit.inOrder (plans.flatMap Plan.edits)) = some text ∧
      Edit.apply source (plans.flatMap Plan.edits) = .ok text := by
  have horder := inOrder_flatMap_edits hstands hbehind
  have hfollow : (Edit.inOrder (plans.flatMap Plan.edits)).Pairwise fun a b =>
      a.span.stop ≤ b.span.start := by
    rw [horder]
    exact (pairwise_flatMap_editsInOrder hstands hbehind).imp And.right
  have happly := Edit.apply_eq_ok_of_follow (fits_of_mem_flatMap_edits hstands) hfollow
  rwa [horder] at happly ⊢

theorem pairwise_compatible_flatMap_edits :
    (plans.flatMap Plan.edits).Pairwise Edit.Compatible := by
  have hperm : (plans.flatMap Plan.editsInOrder).Perm (plans.flatMap Plan.edits) :=
    List.Perm.flatMap_left plans fun plan _ => plan.edits_perm_editsInOrder.symm
  refine List.Pairwise.perm ?_ hperm Edit.Compatible.symm
  exact (pairwise_flatMap_editsInOrder hstands hbehind).imp fun h =>
    Edit.compatible_of_stop_le_start h.2

end Batch

/-! ## The survivors of a unit -/

/-- A wrapped function as it is reported, read off its plan. -/
def WrappedFunction.ofPlan (plan : Plan) : WrappedFunction :=
  ⟨plan.function, plan.mangledName, plan.line⟩

section Unit

variable (source : String) (symbols : SymbolTable) (adapter : String)
  (candidates : List Candidate)

/-- The plans of a unit before overlaps are looked for, in the order of their
candidates. -/
def plansOf : List Plan :=
  (planAll source symbols adapter (accept candidates).1).1

/-- The plans that pass every gate, in source order. -/
def survivors : List Plan :=
  (rejectOverlaps (plansOf source symbols adapter candidates)).1

/-- The failures of all gates, in the order in which they are reported. -/
def failuresOf : List Failure :=
  ((accept candidates).2 ++ (planAll source symbols adapter (accept candidates).1).2 ++
    (rejectOverlaps (plansOf source symbols adapter candidates)).2).mergeSort Failure.precedes

variable {source symbols adapter candidates}

theorem mem_plansOf {plan : Plan} :
    plan ∈ plansOf source symbols adapter candidates ↔
      ∃ d ∈ (accept candidates).1, d.plan source symbols adapter = .ok plan := by
  rw [plansOf, planAll_fst, List.mem_filterMap]
  simp only [toOption_eq_some_iff]

theorem standsIn_of_mem_plansOf {plan : Plan}
    (h : plan ∈ plansOf source symbols adapter candidates) : plan.StandsIn source := by
  obtain ⟨d, -, hplan⟩ := mem_plansOf.mp h
  obtain ⟨parameterList, heq⟩ := Definition.eq_planWith_of_plan hplan
  exact ⟨d, adapter, parameterList, Definition.placed_of_plan hplan, heq⟩

theorem nonempty_of_mem_plansOf :
    ∀ plan ∈ plansOf source symbols adapter candidates, plan.Nonempty :=
  fun _ h => (standsIn_of_mem_plansOf h).nonempty

theorem mem_plansOf_of_mem_survivors {plan : Plan}
    (h : plan ∈ survivors source symbols adapter candidates) :
    plan ∈ plansOf source symbols adapter candidates := by
  rw [survivors, rejectOverlaps_fst nonempty_of_mem_plansOf] at h
  exact List.mem_mergeSort.mp (List.mem_filter.mp h).1

theorem standsIn_of_mem_survivors :
    ∀ plan ∈ survivors source symbols adapter candidates, plan.StandsIn source :=
  fun _ h => standsIn_of_mem_plansOf (mem_plansOf_of_mem_survivors h)

variable (source symbols adapter candidates)

theorem pairwise_survivors :
    (survivors source symbols adapter candidates).Pairwise fun a b =>
      a.footprint.stop ≤ b.footprint.start :=
  rejectOverlaps_fst_pairwise nonempty_of_mem_plansOf

theorem pairwise_start_survivors :
    (survivors source symbols adapter candidates).Pairwise fun a b =>
      a.footprint.start < b.footprint.start := by
  apply (pairwise_survivors source symbols adapter candidates).imp_of_mem
  intro a b ha _ hab
  exact Nat.lt_of_lt_of_le (standsIn_of_mem_survivors a ha).nonempty hab

theorem nodup_function_plansOf :
    ((plansOf source symbols adapter candidates).map (·.function)).Nodup := by
  have hnames := nodup_name_accept candidates
  rw [List.nodup_iff_pairwise_ne, List.pairwise_map] at hnames ⊢
  rw [plansOf, planAll_fst, List.pairwise_filterMap]
  apply hnames.imp
  intro d e hne plan hplan other hother
  obtain ⟨_, rfl⟩ := Definition.eq_planWith_of_plan (toOption_eq_some_iff.mp hplan)
  obtain ⟨_, rfl⟩ := Definition.eq_planWith_of_plan (toOption_eq_some_iff.mp hother)
  exact hne

theorem nodup_function_survivors :
    ((survivors source symbols adapter candidates).map (·.function)).Nodup := by
  rw [survivors, rejectOverlaps_fst nonempty_of_mem_plansOf]
  have hsorted := ((List.mergeSort_perm (plansOf source symbols adapter candidates)
    Plan.precedes).map (·.function)).nodup_iff.mpr
      (nodup_function_plansOf source symbols adapter candidates)
  exact hsorted.sublist (List.filter_sublist.map _)

/-- Every run of a unit in one equation. The text is the one a single pass over
the source produces, and the loop over the buffer never stops early. -/
theorem wrapUnit_eq_ok :
    ∃ text,
      Edit.splice? source 0
        ((survivors source symbols adapter candidates).flatMap Plan.editsInOrder) = some text ∧
      Edit.applyBackwards source
        (Edit.inOrder ((survivors source symbols adapter candidates).flatMap Plan.edits)) =
          some text ∧
      wrapUnit source symbols adapter candidates = .ok {
        patched := text
        edits := (survivors source symbols adapter candidates).flatMap Plan.edits
        wrapped := (survivors source symbols adapter candidates).map WrappedFunction.ofPlan
        failures := failuresOf source symbols adapter candidates } := by
  obtain ⟨text, hsplice, hback, happly⟩ :=
    apply_flatMap_edits standsIn_of_mem_survivors
      (pairwise_survivors source symbols adapter candidates)
  refine ⟨text, hsplice, hback, ?_⟩
  have hrun : wrapUnit source symbols adapter candidates =
      (Edit.apply source ((survivors source symbols adapter candidates).flatMap Plan.edits) >>=
        fun patched => pure {
          patched := patched
          edits := (survivors source symbols adapter candidates).flatMap Plan.edits
          wrapped := (survivors source symbols adapter candidates).map WrappedFunction.ofPlan
          failures := failuresOf source symbols adapter candidates }) := rfl
  rw [hrun, happly]
  rfl

variable {source symbols adapter candidates} in
/-- Runs with the same survivors differ in their failures only. -/
theorem exists_outcome_of_survivors_eq {others : List Candidate}
    (h : survivors source symbols adapter others = survivors source symbols adapter candidates) :
    ∃ outcome : UnitOutcome,
      wrapUnit source symbols adapter candidates = .ok { outcome with
        failures := failuresOf source symbols adapter candidates } ∧
      wrapUnit source symbols adapter others = .ok { outcome with
        failures := failuresOf source symbols adapter others } := by
  obtain ⟨text, hsplice, -, hrun⟩ := wrapUnit_eq_ok source symbols adapter candidates
  obtain ⟨text', hsplice', -, hrun'⟩ := wrapUnit_eq_ok source symbols adapter others
  rw [h, hsplice, Option.some.injEq] at hsplice'
  rw [h, ← hsplice'] at hrun'
  let outcome : UnitOutcome := {
    patched := text
    edits := (survivors source symbols adapter candidates).flatMap Plan.edits
    wrapped := (survivors source symbols adapter candidates).map WrappedFunction.ofPlan
    failures := [] }
  exact ⟨outcome, hrun, hrun'⟩

/-- Wrapping a unit never fails, whatever the candidates are: the edits of the
survivors lie inside the source, split no character and are compatible with one
another, and applying them runs to the end. -/
theorem exists_wrapUnit_eq_ok :
    ∃ outcome, wrapUnit source symbols adapter candidates = .ok outcome ∧
      outcome.edits = (survivors source symbols adapter candidates).flatMap Plan.edits ∧
      (∀ edit ∈ outcome.edits, edit.Fits source) ∧
      outcome.edits.Pairwise Edit.Compatible ∧
      Edit.applyBackwards source (Edit.inOrder outcome.edits) = some outcome.patched := by
  obtain ⟨text, -, hback, hrun⟩ := wrapUnit_eq_ok source symbols adapter candidates
  have hcompatible := pairwise_compatible_flatMap_edits standsIn_of_mem_survivors
    (pairwise_survivors source symbols adapter candidates)
  exact ⟨_, hrun, rfl, fits_of_mem_flatMap_edits standsIn_of_mem_survivors, hcompatible, hback⟩

end Unit

end CachedCalls
