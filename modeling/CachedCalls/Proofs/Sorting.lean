/-
# Lists in order

Everything that is reported or applied in an order is sorted with a stable
sort, so a tie is decided by the order in which its members were supplied. The
order of a result is stated here for the pair of both: what the comparison says,
and, where it says nothing, whatever was known of the supplied list. Elements
that carry their place make every tie a strict one, and a list in a strict order
is determined by its members.
-/

import Mathlib.Data.List.Nodup

namespace CachedCalls

/-- Sorting keeps what the supplied order says about members that tie. -/
theorem pairwise_mergeSort_of_ties {α : Type} (le : α → α → Bool)
    (htrans : ∀ a b c, le a b = true → le b c = true → le a c = true)
    (htotal : ∀ a b, (le a b || le b a) = true) {S : α → α → Prop} {l : List α}
    (hsupplied : l.Pairwise S) :
    (l.mergeSort le).Pairwise fun a b => le a b = true ∧ (le b a = true → S a b) := by
  induction l with
  | nil => simp
  | cons a l ih =>
      rw [List.pairwise_cons] at hsupplied
      obtain ⟨front, back, hsort, hrest, hfront⟩ := List.mergeSort_cons htrans htotal a l
      have hsorted := List.pairwise_mergeSort htrans htotal (a :: l)
      have ih := ih hsupplied.2
      rw [hsort] at hsorted ⊢
      rw [hrest, List.pairwise_append] at ih
      rw [List.pairwise_append, List.pairwise_cons] at hsorted ⊢
      refine ⟨ih.1, ⟨fun b hb => ⟨hsorted.2.1.1 b hb, fun _ => ?_⟩, ih.2.1⟩, fun b hb c hc => ?_⟩
      · -- Everything behind `a` was supplied behind it.
        have hmem : b ∈ l.mergeSort le := by
          rw [hrest]
          exact List.mem_append_right front hb
        exact hsupplied.1 b (List.mem_mergeSort.mp hmem)
      · rcases List.mem_cons.mp hc with rfl | hc
        · -- What was moved in front of `a` does not tie with it.
          refine ⟨hsorted.2.2 b hb c List.mem_cons_self, fun hle => ?_⟩
          have hlt := hfront b hb
          rw [hle] at hlt
          cases hlt
        · exact ih.2.2 b hb c hc

/-- A list in a strict order has no member twice. -/
theorem nodup_of_pairwise_of_asymm {α : Type} {R : α → α → Prop} (hasymm : ∀ a b, R a b → ¬ R b a)
    {l : List α} (h : l.Pairwise R) : l.Nodup := by
  apply h.imp
  rintro a b hab rfl
  exact hasymm a a hab hab

/-- A list in a strict order is determined by its members. -/
theorem eq_of_pairwise_of_mem_iff {α : Type} {R : α → α → Prop}
    (hasymm : ∀ a b, R a b → ¬ R b a) {l₁ l₂ : List α} (h₁ : l₁.Pairwise R)
    (h₂ : l₂.Pairwise R) (hmem : ∀ a, a ∈ l₁ ↔ a ∈ l₂) : l₁ = l₂ := by
  have hperm : l₁.Perm l₂ := (List.perm_ext_iff_of_nodup
    (nodup_of_pairwise_of_asymm hasymm h₁) (nodup_of_pairwise_of_asymm hasymm h₂)).mpr hmem
  refine hperm.eq_of_pairwise (fun a b _ _ hab hba => ?_) h₁ h₂
  exact absurd hba (hasymm a b hab)

/-- In a strict order the pairs of neighbours and the ordered pairs of members are the same pairs. -/
theorem pairwise_iff_of_asymm {α : Type} {R S : α → α → Prop} (hasymm : ∀ a b, R a b → ¬ R b a)
    {l : List α} (h : l.Pairwise R) : l.Pairwise S ↔ ∀ a ∈ l, ∀ b ∈ l, R a b → S a b := by
  constructor
  · intro hpairs a ha b hb hab
    induction l with
    | nil => cases ha
    | cons first rest ih =>
        rw [List.pairwise_cons] at h hpairs
        rcases List.mem_cons.mp ha with rfl | harest
        · rcases List.mem_cons.mp hb with rfl | hbrest
          · exact absurd hab (hasymm _ _ hab)
          · exact hpairs.1 b hbrest
        · rcases List.mem_cons.mp hb with rfl | hbrest
          · exact absurd (h.1 a harest) (hasymm _ _ hab)
          · exact ih h.2 hpairs.2 harest hbrest
  · intro hpairs
    exact h.imp_of_mem fun ha hb hab => hpairs _ ha _ hb hab

/-! ## Members with their places -/

theorem pairwise_snd_zipIdx {α : Type} (l : List α) :
    l.zipIdx.Pairwise fun a b => a.2 < b.2 := by
  rw [← List.pairwise_map (f := Prod.snd), List.zipIdx_map_snd]
  exact List.pairwise_lt_range'

end CachedCalls
