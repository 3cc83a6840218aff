/-
# Rejections name their function

A candidate can be turned away at many places, and each builds its own message.
Whatever the place, the rejection carries the name of the function it is about,
and a record that is accepted keeps its name and its line. The first fact is an
invariant of the computation rather than of its steps, so it is stated for
computations and closed under sequencing.
-/

import CachedCalls.Proofs.Definition.Placement

namespace CachedCalls

/-- A computation that is rejected only in the name of one function. -/
def Blames {α : Type} (function : String) (result : Except Rejection α) : Prop :=
  ∀ rejection, result = .error rejection → rejection.function = function

theorem Blames.ok {α : Type} (function : String) (a : α) : Blames function (.ok a) := by
  intro rejection h
  cases h

theorem Blames.error {α : Type} (function : String) (cause : Cause) :
    Blames function (.error ⟨function, cause⟩ : Except Rejection α) := by
  intro rejection h
  cases h
  rfl

/-- Sequencing blames no one new. -/
theorem Blames.bind {α β : Type} {function : String} {x : Except Rejection α}
    {f : α → Except Rejection β} (hx : Blames function x) (hf : ∀ a, Blames function (f a)) :
    Blames function (x >>= f) := by
  cases x with
  | error rejection =>
      intro other h
      cases h
      exact hx rejection rfl
  | ok a => exact hf a

namespace TaggedFunction

theorem blames_toDefinition (f : TaggedFunction) : Blames f.name f.toDefinition := by
  unfold toDefinition
  cases f.body with
  | none => exact .error _ _
  | some body =>
      dsimp only
      split_ifs
      · exact .error _ _
      · exact .error _ _
      · exact .error _ _
      · exact .error _ _
      · exact .error _ _
      · split
        · exact .error _ _
        · exact .error _ _
        · exact .ok _ _

/-- Acceptance changes neither the name nor the line of a record. -/
theorem name_line_of_toDefinition {f : TaggedFunction} {d : Definition}
    (h : f.toDefinition = .ok d) : d.name = f.name ∧ d.line = f.line := by
  unfold toDefinition at h
  cases hbody : f.body with
  | none => simp [hbody] at h
  | some body =>
      simp only [hbody] at h
      split_ifs at h
      split at h
      · cases h
      · cases h
      · cases h
        exact ⟨rfl, rfl⟩

end TaggedFunction

namespace Definition

theorem blames_checkBody (d : Definition) (source : String) : Blames d.name (d.checkBody source) := by
  unfold checkBody unresolvable
  split
  · exact .error _ _
  · split
    · exact .error _ _
    · split_ifs
      · exact .ok _ _
      · exact .error _ _

theorem blames_checkName (d : Definition) (source : String) : Blames d.name (d.checkName source) := by
  unfold checkName unresolvable
  split
  · exact .error _ _
  · split_ifs
    · exact .ok _ _
    · exact .error _ _

theorem blames_parameterList (d : Definition) (source : String) :
    Blames d.name (d.parameterList source) := by
  unfold parameterList unresolvable
  split
  · exact .error _ _
  · dsimp only
    split_ifs
    · exact .error _ _
    · exact .error _ _
    · exact .ok _ _

theorem blames_planRename (d : Definition) (source : String) (symbols : SymbolTable) :
    Blames d.name (d.planRename source symbols) := by
  refine (d.blames_checkName source).bind fun _ => ?_
  dsimp only
  split_ifs
  · exact .error _ _
  · exact .ok _ _

theorem blames_plan (d : Definition) (source : String) (symbols : SymbolTable) (adapter : String) :
    Blames d.name (d.plan source symbols adapter) := by
  refine (d.blames_checkBody source).bind fun _ => ?_
  split
  · exact .error _ _
  · refine Blames.bind ?_ fun _ => (d.blames_planRename source symbols).bind fun _ => .ok _ _
    exact (d.blames_parameterList source).bind fun _ => .ok _ _

end Definition

end CachedCalls
