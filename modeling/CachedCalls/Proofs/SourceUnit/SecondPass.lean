/-
# Wrapping a unit twice

Nothing in a wrapped unit says that it has been wrapped. What protects it is the
check for taken names: every wrapper calls the renamed function, so the new name
stands in the patched text as a word of its own, whatever the source around it
looks like. Planning a function of the old name against that text would need the
same new name and is refused. So a second pass wraps no function again, even if
the functions it is given, their offsets and the adapter have nothing to do with
those of the first.
-/

import CachedCalls.Proofs.SourceUnit.Survivors
import CachedCalls.Proofs.Text.Word

namespace CachedCalls

open Text

/-- A wrapper passes the renamed function to the adapter, between parentheses. -/
theorem exists_wrapper_toList_eq (adapter prototype mangled : String)
    (parameters : List Parameter) :
    ∃ front rest, (wrapper adapter prototype mangled parameters).toList =
      front ++ '(' :: (mangled.toList ++ ')' :: rest) := by
  refine ⟨(prototype ++ " \x7b\nstatic const auto " ++ proxyName ++ " = " ++ adapter).toList,
    (";\nreturn " ++ proxyName ++ "(" ++ argumentList parameters ++ ");\n\x7d").toList, ?_⟩
  simp [wrapper]

section Unit

variable {source : String} {symbols : SymbolTable} {adapter : String} {candidates : List Candidate}

/-- A survivor was planned under names that are identifiers, and its new name was not in use. -/
theorem names_of_mem_survivors {plan : Plan}
    (h : plan ∈ survivors source symbols adapter candidates) :
    isIdentifier plan.function = true ∧ plan.mangledName = mangledName plan.function ∧
      symbols.contains plan.mangledName = false := by
  obtain ⟨d, haccepted, hplan⟩ := mem_plansOf.mp (mem_plansOf_of_mem_survivors h)
  obtain ⟨f, -, hf⟩ := exists_tagged_of_mem_accept haccepted
  obtain ⟨body, -, hname, -, -, -, -, -, -, -, rfl⟩ :=
    TaggedFunction.toDefinition_eq_ok_iff.mp hf
  obtain ⟨-, -, -, hfree, parameterList, -, rfl⟩ := Definition.plan_eq_ok_iff.mp hplan
  exact ⟨hname, rfl, hfree⟩

/-- The new name of a survivor is a word of the text its edits lead to. -/
theorem mem_identifiers_of_mem_survivors {plan : Plan} {text : String}
    (h : plan ∈ survivors source symbols adapter candidates)
    (htext : Edit.splice? source 0
      ((survivors source symbols adapter candidates).flatMap Plan.editsInOrder) = some text) :
    plan.mangledName ∈ identifiers text := by
  obtain ⟨hname, hmangled, -⟩ := names_of_mem_survivors h
  obtain ⟨d, -, hplan⟩ := mem_plansOf.mp (mem_plansOf_of_mem_survivors h)
  obtain ⟨parameterList, hwith⟩ := Definition.eq_planWith_of_plan hplan
  have hedit : plan.wrapperInsertion ∈
      (survivors source symbols adapter candidates).flatMap Plan.editsInOrder :=
    List.mem_flatMap.mpr ⟨plan, h, by simp [Plan.editsInOrder]⟩
  obtain ⟨before, after, rfl⟩ := Edit.exists_append_of_splice? htext hedit
  obtain ⟨front, rest, hwrapper⟩ :=
    exists_wrapper_toList_eq adapter plan.prototype plan.mangledName d.parameters
  have hinserted : plan.wrapperInsertion.text.toList =
      "\n\n".toList ++ (front ++ '(' :: (plan.mangledName.toList ++ ')' :: rest)) := by
    rw [← hwrapper, ← String.toList_append, hwith]
    rfl
  have hidentifier : isIdentifier plan.mangledName = true := by
    rw [hmangled]
    exact isIdentifier_mangledName hname
  have hword : (before ++ plan.wrapperInsertion.text ++ after).toList =
      (before.toList ++ "\n\n".toList ++ front) ++
        '(' :: (plan.mangledName.toList ++ ')' :: (rest ++ after.toList)) := by
    rw [String.toList_append, String.toList_append, hinserted]
    simp only [List.append_assoc, List.cons_append]
  exact mem_identifiers_of_append hidentifier (by decide) (by decide) hword

end Unit

/-- No second pass wraps a function again. The patched text holds the new name of every wrapped
function, and a pass over it wraps no function of the same name, whichever functions it is asked to
wrap and whatever their adapter is. -/
theorem wrapFunctions_patched_wraps_none_again (source : String)
    (functions : List TaggedFunction) (adapter : String) :
    ∃ outcome, wrapFunctions source functions adapter = .ok outcome ∧
      (∀ w ∈ outcome.wrapped, w.mangledName = mangledName w.name ∧
        (SymbolTable.scan outcome.patched).contains w.mangledName = true) ∧
      ∀ functions' adapter', ∃ outcome',
        wrapFunctions outcome.patched functions' adapter' = .ok outcome' ∧
        ∀ w ∈ outcome.wrapped, ∀ w' ∈ outcome'.wrapped, w'.name ≠ w.name := by
  obtain ⟨text, hsplice, -, hrun⟩ :=
    wrapUnit_eq_ok source (.scan source) adapter (functions.map .ok)
  have hwords : ∀ w ∈ (survivors source (.scan source) adapter (functions.map .ok)).map
      WrappedFunction.ofPlan, w.mangledName = mangledName w.name ∧
        (SymbolTable.scan text).contains w.mangledName = true := by
    rw [List.forall_mem_map]
    intro plan hplan
    refine ⟨(names_of_mem_survivors hplan).2.1, ?_⟩
    exact (SymbolTable.contains_scan _ _).mpr (mem_identifiers_of_mem_survivors hplan hsplice)
  refine ⟨_, hrun, hwords, fun functions' adapter' => ?_⟩
  obtain ⟨text', -, -, hrun'⟩ := wrapUnit_eq_ok text (.scan text) adapter' (functions'.map .ok)
  refine ⟨_, hrun', fun w hw w' hw' hname => ?_⟩
  obtain ⟨hmangled, htaken⟩ := hwords w hw
  obtain ⟨plan', hplan', rfl⟩ := List.mem_map.mp hw'
  obtain ⟨-, hmangled', hfree⟩ := names_of_mem_survivors hplan'
  -- Both passes would give the function the same new name, which is taken in the second.
  have hsame : plan'.mangledName = w.mangledName := by
    rw [hmangled', hmangled, ← hname]
    rfl
  rw [hsame, htaken] at hfree
  cases hfree

end CachedCalls
