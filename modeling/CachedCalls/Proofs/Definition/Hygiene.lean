/-
# Names in scope of a wrapper

A wrapper calls its adapter once, to initialise the proxy. Where that call
stands, the parameters of the function are in scope, and so is the proxy: the
scope of a variable begins in front of its own initialiser. An adapter that is
not looked up from the global scope means what it should only if its first
segment is none of these names.

A plan is refused for a parameter with the name of the proxy or of that segment.
The adapter itself is compared with the parameters only. If its first segment is
the name of the proxy, every plan goes through, and the proxy is initialised by a
call of itself.
-/

import CachedCalls.Proofs.Config.QualifiedName
import CachedCalls.Proofs.Definition.Placement
import CachedCalls.Proofs.Lexical.Closing

namespace CachedCalls

open Text

/-- The names in scope where a wrapper initialises its proxy. -/
def initialiserScope (parameters : List Parameter) : List String :=
  proxyName :: parameters.map (·.name)

theorem shadowedParameter?_eq_none_iff {adapter : String} {parameters : List Parameter} :
    shadowedParameter? adapter parameters = none ↔
      ∀ p ∈ parameters, p.name ≠ proxyName ∧ some p.name ≠ adapterHead? adapter := by
  rw [shadowedParameter?, List.find?_eq_none]
  simp

/-- The first segment of an adapter is the name of the proxy exactly if the adapter begins so. -/
theorem BeginsWithSegment.eq_proxyName_iff {adapter head : String}
    (h : BeginsWithSegment adapter head) :
    head = proxyName ↔ adapter = "proxy" ∨ ∃ rest, adapter = "proxy::" ++ rest := by
  constructor
  · rintro rfl
    rcases h.eq_or_exists_eq_append with hwhole | ⟨rest, hrest⟩
    · exact Or.inl hwhole
    · exact Or.inr ⟨rest, hrest⟩
  · intro hadapter
    have hproxy : adapterHead? adapter = some proxyName :=
      adapterHead?_of_isIdentifier (by decide) hadapter
    rw [h.adapterHead?_eq] at hproxy
    exact Option.some.inj hproxy

namespace Definition

/-- What a planned wrapper can capture. No parameter is named like the proxy, and none hides the
first segment of the adapter. So the segment is in scope of the wrapper only if it is the name of
the proxy, and of no adapter that begins with this name is a plan refused for it. -/
theorem mem_initialiserScope_iff_of_plan {d : Definition} {source adapter : String}
    {symbols : SymbolTable} {plan : Plan} (hadapter : checkAdapter adapter = .ok ())
    (hplan : d.plan source symbols adapter = .ok plan) :
    (∀ p ∈ d.parameters, p.name ≠ proxyName) ∧
      ((¬ ∃ rest, adapter = "::" ++ rest) → ∃ head, BeginsWithSegment adapter head) ∧
      ∀ head, BeginsWithSegment adapter head →
        (∀ p ∈ d.parameters, p.name ≠ head) ∧
        (head ∈ initialiserScope d.parameters ↔
          adapter = "proxy" ∨ ∃ rest, adapter = "proxy::" ++ rest) := by
  obtain ⟨-, hshadow, -⟩ := plan_eq_ok_iff.mp hplan
  rw [shadowedParameter?_eq_none_iff] at hshadow
  refine ⟨fun p hp => (hshadow p hp).1, exists_beginsWithSegment_of_checkAdapter hadapter, ?_⟩
  intro head hhead
  have hvisible : ∀ p ∈ d.parameters, p.name ≠ head := by
    rintro p hp rfl
    exact (hshadow p hp).2 hhead.adapterHead?_eq.symm
  refine ⟨hvisible, ?_⟩
  rw [initialiserScope, List.mem_cons, ← hhead.eq_proxyName_iff, or_iff_left]
  intro hmem
  obtain ⟨p, hp, hname⟩ := List.mem_map.mp hmem
  exact hvisible p hp hname

/-- An adapter in a namespace, with a parameter that has the name of its last segment. -/
theorem mem_initialiserScope_iff_of_plan_qualified :
    let source := "int f(int memoize) \x7b return memoize; \x7d"
    let d : Definition := ⟨"f", "int", [⟨"memoize", "int"⟩], 0, 5, ⟨19, 38⟩, 1⟩
    let adapter := "cache::memoize"
    checkAdapter adapter = .ok () ∧ ∃ plan, d.plan source .empty adapter = .ok plan ∧
      (∀ p ∈ d.parameters, p.name ≠ proxyName) ∧
      ((¬ ∃ rest, adapter = "::" ++ rest) → ∃ head, BeginsWithSegment adapter head) ∧
      ∀ head, BeginsWithSegment adapter head →
        (∀ p ∈ d.parameters, p.name ≠ head) ∧
        (head ∈ initialiserScope d.parameters ↔
          adapter = "proxy" ∨ ∃ rest, adapter = "proxy::" ++ rest) := by
  intro source d adapter
  have hadapter : checkAdapter adapter = .ok () :=
    checkAdapter_eq_ok_iff.mpr ⟨"", ["cache", "memoize"], Or.inl rfl, by simp, by decide, by decide⟩
  have hclose : (Lexical.closingParen? "(int memoize)").isSome := by
    rw [Lexical.isSome_closingParen?]
    decide
  have hlist : d.parameterList source = .ok "(int memoize)" :=
    parameterList_eq_ok_iff.mpr
      ⟨"(int memoize) ", by decide +kernel, by decide +kernel, by decide, hclose⟩
  have hplan : d.plan source .empty adapter = .ok (d.planWith adapter "(int memoize)") :=
    plan_eq_ok_iff.mpr
      ⟨by decide +kernel, by decide +kernel, by decide +kernel, rfl, _, hlist, rfl⟩
  exact ⟨hadapter, _, hplan, mem_initialiserScope_iff_of_plan hadapter hplan⟩

/-- An adapter with the name of the proxy is accepted, and so is the plan. The wrapper initialises
its proxy by a call of the proxy. -/
theorem mem_initialiserScope_of_adapterProxy :
    let source := "int f(int x) \x7b return x; \x7d"
    let f : TaggedFunction := ⟨"f", "int", [⟨"x", "int"⟩], 0, 5, some ⟨13, 26⟩, 1⟩
    let d : Definition := ⟨"f", "int", [⟨"x", "int"⟩], 0, 5, ⟨13, 26⟩, 1⟩
    checkAdapter "proxy" = .ok () ∧ f.toDefinition = .ok d ∧
      d.plan source .empty "proxy" = .ok (d.planWith "proxy" "(int x)") ∧
      (d.planWith "proxy" "(int x)").wrapper =
        "int f(int x) \x7b\nstatic const auto proxy = proxy(f__original__);\nreturn proxy(x);\n\x7d" ∧
      BeginsWithSegment "proxy" "proxy" ∧ "proxy" ∈ initialiserScope d.parameters := by
  intro source f d
  have hadapter : checkAdapter "proxy" = .ok () :=
    checkAdapter_eq_ok_iff.mpr ⟨"", ["proxy"], Or.inl rfl, by simp, by decide, by decide⟩
  have hclose : (Lexical.closingParen? "(int x)").isSome := by
    rw [Lexical.isSome_closingParen?]
    decide
  have hlist : d.parameterList source = .ok "(int x)" :=
    parameterList_eq_ok_iff.mpr ⟨"(int x) ", by decide +kernel, by decide +kernel, by decide, hclose⟩
  have hplan : d.plan source .empty "proxy" = .ok (d.planWith "proxy" "(int x)") :=
    plan_eq_ok_iff.mpr
      ⟨by decide +kernel, by decide +kernel, by decide +kernel, rfl, _, hlist, rfl⟩
  exact ⟨hadapter, by decide +kernel, hplan, by decide +kernel, ⟨[], by decide, by decide⟩,
    List.mem_cons_self⟩

end Definition

end CachedCalls
