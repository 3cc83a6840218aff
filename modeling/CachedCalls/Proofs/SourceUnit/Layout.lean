/-
# The text of a wrapped unit

The patched text is described here without edits, offsets that move, or an
order of application. Source and patched text are two readings of one list of
fragments: bytes that are kept belong to both, removed bytes to the source only
and added bytes to the patched text only. The fragments of a unit follow its
definitions in source order, and what is removed is exactly the text from the
start of a declaration through its name. Everything else survives once and in
place, also where one definition ends at the offset at which the next begins.
-/

import CachedCalls.Proofs.SourceUnit.Survivors

namespace CachedCalls

open Text

/-- A stretch of text that stays, goes or arrives when a unit is wrapped. -/
inductive Fragment where
  | kept (text : String)
  | removed (text : String)
  | added (text : String)
deriving DecidableEq, Repr

namespace Fragment

/-- The text before wrapping: what was kept and what was removed. -/
def oldText : List Fragment → String
  | [] => ""
  | kept text :: later | removed text :: later => text ++ oldText later
  | added _ :: later => oldText later

/-- The text after wrapping: what was kept and what was added. -/
def newText : List Fragment → String
  | [] => ""
  | kept text :: later | added text :: later => text ++ newText later
  | removed _ :: later => newText later

end Fragment

/-- The fragments of one definition. In front of it stands a declaration under
its own name, its declaration is renamed, everything from the end of the name to
the end of the body stays, and a wrapper under its own name follows. -/
def Definition.fragments (d : Definition) (adapter parameterList renamed definition : String) :
    List Fragment :=
  let prototype := d.returnType ++ " " ++ d.name ++ parameterList
  let mangled := d.name ++ "__original__"
  let arguments := ", ".intercalate (d.parameters.map (·.name))
  [.added (prototype ++ ";\n"),
   .removed renamed,
   .added (d.returnType ++ " " ++ mangled),
   .kept definition,
   .added ("\n\n" ++ prototype ++ " \x7b\nstatic const auto proxy = " ++ adapter ++ "(" ++
     mangled ++ ");\nreturn proxy(" ++ arguments ++ ");\n\x7d")]

/-- The fragments of a source whose wrapped definitions are given in source
order, from `cursor` on. All text that is kept or removed, and the parameter
list that is repeated, is sliced from the source; there is no layout when a
slice does not exist. -/
def layout? (source adapter : String) (cursor : Nat) : List Definition → Option (List Fragment)
  | [] => do
    let rest ← Span.slice? ⟨cursor, size source⟩ source
    return [.kept rest]
  | d :: later => do
    let gap ← Span.slice? ⟨cursor, d.declarationStart⟩ source
    let renamed ← Span.slice? ⟨d.declarationStart, d.nameEnd⟩ source
    let parameterList ← Span.slice? ⟨d.nameEnd, d.body.start⟩ source
    let definition ← Span.slice? ⟨d.nameEnd, d.body.stop⟩ source
    let rest ← layout? source adapter d.body.stop later
    return .kept gap :: d.fragments adapter (trimEnd parameterList) renamed definition ++ rest

section Layout

variable {source : String} {symbols : SymbolTable} {adapter : String}

/-- One step of a pass over the source: the edits of a plan write the fragments
of its definition. -/
theorem splice?_editsInOrder {d : Definition} {gap definition : String} {cursor : Nat}
    {edits : List Edit} {rest : List Fragment}
    (hgap : Span.slice? ⟨cursor, d.declarationStart⟩ source = some gap)
    (hstart : isBoundary source d.declarationStart = true)
    (hdefinition : Span.slice? ⟨d.nameEnd, d.body.stop⟩ source = some definition)
    (hrest : Edit.splice? source d.body.stop edits = some (Fragment.newText rest))
    (renamed parameterList : String) :
    Edit.splice? source cursor ((d.planWith adapter parameterList).editsInOrder ++ edits) =
      some (Fragment.newText
        (.kept gap :: d.fragments adapter parameterList renamed definition ++ rest)) := by
  let plan := d.planWith adapter parameterList
  have hwrapper : Edit.splice? source d.nameEnd (plan.wrapperInsertion :: edits) = some _ :=
    Edit.splice?_cons_eq_some_iff.mpr ⟨definition, _, hdefinition, hrest, rfl⟩
  have hrename : Edit.splice? source d.declarationStart
      (plan.rename :: plan.wrapperInsertion :: edits) = some _ :=
    Edit.splice?_cons_eq_some_iff.mpr ⟨"", _, Span.slice?_empty hstart, hwrapper, rfl⟩
  refine Edit.splice?_cons_eq_some_iff.mpr ⟨gap, _, hgap, hrename, ?_⟩
  simp [plan, Definition.planWith, Definition.fragments, Fragment.newText, Edit.text, wrapper,
    prototype, mangledName, mangleSuffix, proxyName, argumentList, String.append_assoc]

/-- From any usable offset in front of the planned definitions the layout
exists, its old text is the source from there on, and its new text is what a
pass over the source with the edits of the plans produces. -/
theorem exists_layout? {definitions : List Definition} {plans : List Plan} {cursor : Nat}
    (hplans : (definitions.map fun d => d.plan source symbols adapter) = plans.map .ok)
    (hcursor : isBoundary source cursor = true)
    (hfirst : ∀ d ∈ definitions, cursor ≤ d.declarationStart)
    (hbehind : definitions.Pairwise fun a b => a.body.stop ≤ b.declarationStart) :
    ∃ fragments, layout? source adapter cursor definitions = some fragments ∧
      Span.slice? ⟨cursor, size source⟩ source = some (Fragment.oldText fragments) ∧
      Edit.splice? source cursor (plans.flatMap Plan.editsInOrder) =
        some (Fragment.newText fragments) := by
  induction definitions generalizing plans cursor with
  | nil =>
      obtain rfl : plans = [] := by simpa using hplans.symm
      obtain ⟨rest, hrest⟩ :=
        Span.exists_slice? (le_size_of_isBoundary hcursor) hcursor (isBoundary_size source)
      refine ⟨[.kept rest], by simp [layout?, hrest], ?_, ?_⟩
      · simpa [Fragment.oldText] using hrest
      · simpa [Fragment.newText, Edit.splice?] using hrest
  | cons d later ih =>
      cases plans with
      | nil => simp at hplans
      | cons plan plans =>
          rw [List.map_cons, List.map_cons, List.cons.injEq] at hplans
          rw [List.forall_mem_cons] at hfirst
          rw [List.pairwise_cons] at hbehind
          have hplaced := Definition.placed_of_plan hplans.1
          obtain ⟨-, -, -, -, text, htext, rfl⟩ := Definition.plan_eq_ok_iff.mp hplans.1
          obtain ⟨parameterList, hlist, rfl, -, -⟩ := Definition.parameterList_eq_ok_iff.mp htext
          obtain ⟨gap, hgap⟩ := Span.exists_slice? hfirst.1 hcursor hplaced.start_isBoundary
          obtain ⟨renamed, hrenamed⟩ := Span.exists_slice? hplaced.start_le_nameEnd
            hplaced.start_isBoundary hplaced.nameEnd_isBoundary
          obtain ⟨definition, hdefinition⟩ := Span.exists_slice? hplaced.nameEnd_le_stop
            hplaced.nameEnd_isBoundary hplaced.stop_isBoundary
          obtain ⟨rest, hrest, hold, hnew⟩ := ih hplans.2 hplaced.stop_isBoundary hbehind.1 hbehind.2
          refine ⟨.kept gap :: d.fragments adapter (trimEnd parameterList) renamed definition ++ rest,
            ?_, ?_, ?_⟩
          · rw [Definition.parameterListSpan] at hlist
            simp [layout?, hgap, hrenamed, hlist, hdefinition, hrest]
          · have hwhole := Span.slice?_append hgap (Span.slice?_append hrenamed
              (Span.slice?_append hdefinition hold))
            simpa [Definition.fragments, Fragment.oldText] using hwhole
          · exact splice?_editsInOrder hgap hplaced.start_isBoundary hdefinition hnew renamed _

end Layout

section Unit

variable (source : String) (symbols : SymbolTable) (adapter : String)
  (candidates : List Candidate)

/-- Every list of plans of the unit comes from accepted definitions, plan by
plan. -/
theorem exists_definitions {plans : List Plan}
    (h : ∀ plan ∈ plans, plan ∈ plansOf source symbols adapter candidates) :
    ∃ definitions : List Definition,
      (∀ d ∈ definitions, d ∈ (accept candidates).1) ∧
      (definitions.map fun d => d.plan source symbols adapter) = plans.map .ok := by
  induction plans with
  | nil => exact ⟨[], by simp, rfl⟩
  | cons plan plans ih =>
      rw [List.forall_mem_cons] at h
      obtain ⟨d, haccepted, hplan⟩ := mem_plansOf.mp h.1
      obtain ⟨definitions, hall, hmap⟩ := ih h.2
      refine ⟨d :: definitions, List.forall_mem_cons.mpr ⟨haccepted, hall⟩, ?_⟩
      rw [List.map_cons, List.map_cons, hplan, hmap]

variable {source symbols adapter} in
/-- What a plan shares with its definition can be read off either list. -/
theorem map_eq_map_of_map_plan {α : Type} {definitions : List Definition} {plans : List Plan}
    (hplans : (definitions.map fun d => d.plan source symbols adapter) = plans.map .ok)
    (f : Definition → α) (g : Plan → α)
    (hshared : ∀ d parameterList, f d = g (d.planWith adapter parameterList)) :
    definitions.map f = plans.map g := by
  induction definitions generalizing plans with
  | nil =>
      obtain rfl : plans = [] := by simpa using hplans.symm
      rfl
  | cons d definitions ih =>
      cases plans with
      | nil => simp at hplans
      | cons plan plans =>
          rw [List.map_cons, List.map_cons, List.cons.injEq] at hplans
          obtain ⟨parameterList, rfl⟩ := Definition.eq_planWith_of_plan hplans.1
          rw [List.map_cons, List.map_cons, hshared d parameterList, ih hplans.2]

/-- The exact text of a wrapped unit. Its survivors come from definitions in
ascending order, none of which reaches into the next. The source is laid out
along them into fragments that read back as the source, and read forward as the
patched text. -/
theorem wrapUnit_patched_eq_newText :
    ∃ outcome definitions fragments,
      wrapUnit source symbols adapter candidates = .ok outcome ∧
      (∀ d ∈ definitions, ∃ f, .ok f ∈ candidates ∧ f.toDefinition = .ok d) ∧
      (definitions.map fun d => d.plan source symbols adapter) =
        (survivors source symbols adapter candidates).map .ok ∧
      outcome.wrapped = definitions.map (fun d => ⟨d.name, d.name ++ "__original__", d.line⟩) ∧
      definitions.Pairwise (fun a b => a.footprint.start < b.footprint.start ∧
        a.footprint.stop ≤ b.footprint.start) ∧
      layout? source adapter 0 definitions = some fragments ∧
      Fragment.oldText fragments = source ∧
      Fragment.newText fragments = outcome.patched := by
  obtain ⟨text, hsplice, -, hrun⟩ := wrapUnit_eq_ok source symbols adapter candidates
  obtain ⟨definitions, haccepted, hplans⟩ :=
    exists_definitions source symbols adapter candidates fun _ => mem_plansOf_of_mem_survivors
  have hwrapped : definitions.map (fun d => ⟨d.name, d.name ++ "__original__", d.line⟩) =
      (survivors source symbols adapter candidates).map WrappedFunction.ofPlan :=
    map_eq_map_of_map_plan hplans _ _ fun _ _ => rfl
  have hfootprints : definitions.map Definition.footprint =
      (survivors source symbols adapter candidates).map Plan.footprint :=
    map_eq_map_of_map_plan hplans _ _ fun _ _ => rfl
  have hspans : (definitions.map Definition.footprint).Pairwise fun a b =>
      a.start < b.start ∧ a.stop ≤ b.start := by
    rw [hfootprints, List.pairwise_map]
    exact (pairwise_start_survivors source symbols adapter candidates).and
      (pairwise_survivors source symbols adapter candidates)
  have hbehind := List.pairwise_map.mp hspans
  obtain ⟨fragments, hlayout, hold, hnew⟩ := exists_layout? hplans (isBoundary_zero source)
    (fun _ _ => Nat.zero_le _) (hbehind.imp And.right)
  rw [Span.slice?_zero_size, Option.some.injEq] at hold
  rw [hsplice, Option.some.injEq] at hnew
  exact ⟨_, definitions, fragments, hrun,
    fun d hd => exists_tagged_of_mem_accept (haccepted d hd), hplans, hwrapped.symm, hbehind,
    hlayout, hold.symm, hnew.symm⟩

end Unit

end CachedCalls
