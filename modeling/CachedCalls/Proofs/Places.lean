/-
# Places of a list

A list of candidates or plans may hold equal members, and each of them has an
exit of its own. What is said about such a list is therefore said about its
places: which value stands at a place, which values a list has and where they
come from, and where the members are found once one place is left out.
-/

import CachedCalls.Proofs.Sorting
import Mathlib.Data.List.Forall2
import Mathlib.Data.List.Nodup

namespace CachedCalls

section Places

variable {α β : Type}

/-! ## The value at a place -/

section Value

variable {f : α → Option β} {P : β → Bool}

/-- The element at place `i` has the value `b`. -/
def ValueAt (f : α → Option β) (l : List α) (i : Nat) (b : β) : Prop :=
  ∃ a, l[i]? = some a ∧ f a = some b

@[simp]
theorem valueAt_cons_zero {a : α} {l : List α} {b : β} :
    ValueAt f (a :: l) 0 b ↔ f a = some b := by
  simp [ValueAt]

@[simp]
theorem valueAt_cons_succ {a : α} {l : List α} {i : Nat} {b : β} :
    ValueAt f (a :: l) (i + 1) b ↔ ValueAt f l i b := by
  simp [ValueAt]

theorem mem_filterMap_iff_exists_valueAt {l : List α} {b : β} :
    b ∈ l.filterMap f ↔ ∃ i, ValueAt f l i b := by
  rw [List.mem_filterMap]
  constructor
  · rintro ⟨a, ha, hb⟩
    obtain ⟨i, hi⟩ := List.mem_iff_getElem?.mp ha
    exact ⟨i, a, hi, hb⟩
  · rintro ⟨i, a, hi, hb⟩
    exact ⟨a, List.mem_of_getElem? hi, hb⟩

/-- Where the rest of a list already has a value that satisfies `P`, the element
in front must not add another. -/
theorem countP_filterMap_cons_eq_one_iff {a : α} {l : List α}
    (hpos : 0 < (l.filterMap f).countP P) :
    ((a :: l).filterMap f).countP P = 1 ↔
      (∀ c, f a = some c → P c = false) ∧ (l.filterMap f).countP P = 1 := by
  cases ha : f a with
  | none => simp [List.filterMap_cons_none ha]
  | some c =>
      rw [List.filterMap_cons_some ha, List.countP_cons]
      cases hc : P c with
      | false => simp [hc]
      | true =>
          constructor
          · intro h
            rw [if_pos rfl] at h
            omega
          · rintro ⟨hfalse, -⟩
            rw [hfalse c rfl] at hc
            cases hc

/-- A value that satisfies `P` is the only one among the values of a list if and
only if no other place has a value that satisfies `P`. -/
theorem countP_filterMap_eq_one_iff {l : List α} {i : Nat} {b : β} (hvalue : ValueAt f l i b)
    (hb : P b = true) :
    (l.filterMap f).countP P = 1 ↔ ∀ j c, j ≠ i → ValueAt f l j c → P c = false := by
  induction l generalizing i with
  | nil => simp [ValueAt] at hvalue
  | cons a l ih =>
      cases i with
      | zero =>
          -- The value stands in front, so all other values come from the rest.
          rw [valueAt_cons_zero] at hvalue
          rw [List.filterMap_cons_some hvalue, List.countP_cons_of_pos hb, Nat.add_eq_right,
            List.countP_eq_zero]
          constructor
          · intro h j c hj hc
            obtain ⟨j, rfl⟩ := Nat.exists_eq_succ_of_ne_zero hj
            rw [valueAt_cons_succ] at hc
            simpa using h c (mem_filterMap_iff_exists_valueAt.mpr ⟨j, hc⟩)
          · intro h c hc
            obtain ⟨j, hj⟩ := mem_filterMap_iff_exists_valueAt.mp hc
            simpa using h (j + 1) c (by omega) (valueAt_cons_succ.mpr hj)
      | succ i =>
          rw [valueAt_cons_succ] at hvalue
          have hrest : ((l.filterMap f).countP P = 1) ↔
              ∀ j c, j + 1 ≠ i + 1 → ValueAt f (a :: l) (j + 1) c → P c = false := by
            simpa using ih hvalue
          have hpos : 0 < (l.filterMap f).countP P :=
            List.countP_pos_iff.mpr ⟨b, mem_filterMap_iff_exists_valueAt.mpr ⟨i, hvalue⟩, hb⟩
          rw [countP_filterMap_cons_eq_one_iff hpos, hrest]
          constructor
          · rintro ⟨hzero, hsucc⟩ j c hj hc
            cases j with
            | zero => exact hzero c (valueAt_cons_zero.mp hc)
            | succ j => exact hsucc j c hj hc
          · intro h
            exact ⟨fun c hc => h 0 c (by omega) (valueAt_cons_zero.mpr hc),
              fun j c hj hc => h (j + 1) c hj hc⟩

/-- The values of a list with the places they come from. -/
theorem exists_places (f : α → Option β) (l : List α) :
    ∃ places : List Nat, places.Nodup ∧ (∀ i, i ∈ places ↔ ∃ b, ValueAt f l i b) ∧
      List.Forall₂ (fun i b => ValueAt f l i b) places (l.filterMap f) := by
  induction l with
  | nil => exact ⟨[], List.nodup_nil, by simp [ValueAt], .nil⟩
  | cons a l ih =>
      obtain ⟨places, hnodup, hmem, hvalues⟩ := ih
      have hnodup' : (places.map (· + 1)).Nodup := hnodup.map fun _ _ => Nat.succ.inj
      have hvalues' : List.Forall₂ (fun i b => ValueAt f (a :: l) i b) (places.map (· + 1))
          (l.filterMap f) := by
        rw [List.forall₂_map_left_iff]
        exact hvalues.imp fun i b h => valueAt_cons_succ.mpr h
      cases ha : f a with
      | none =>
          rw [List.filterMap_cons_none ha]
          refine ⟨places.map (· + 1), hnodup', fun i => ?_, hvalues'⟩
          cases i with
          | zero => simp [ha]
          | succ i => simp [hmem]
      | some b =>
          rw [List.filterMap_cons_some ha]
          refine ⟨0 :: places.map (· + 1), List.nodup_cons.mpr ⟨by simp, hnodup'⟩, fun i => ?_,
            .cons (valueAt_cons_zero.mpr ha) hvalues'⟩
          cases i with
          | zero => simp [ha]
          | succ i => simp [hmem]

end Value

/-! ## Values with their places -/

/-- The values of a list, each with the place it comes from. -/
def valuesAt (f : α → Option β) (l : List α) : List (β × Nat) :=
  l.zipIdx.filterMap fun (a, i) => (f a).map (·, i)

theorem mem_valuesAt_iff {f : α → Option β} {l : List α} {b : β} {i : Nat} :
    (b, i) ∈ valuesAt f l ↔ ValueAt f l i b := by
  rw [valuesAt, List.mem_filterMap, ValueAt]
  constructor
  · rintro ⟨⟨a, j⟩, hmem, hvalue⟩
    obtain ⟨c, hc, heq⟩ := Option.map_eq_some_iff.mp hvalue
    obtain ⟨rfl, rfl⟩ := Prod.mk.inj heq
    exact ⟨a, List.mem_zipIdx_iff_getElem?.mp hmem, hc⟩
  · rintro ⟨a, ha, hvalue⟩
    exact ⟨(a, i), List.mem_zipIdx_iff_getElem?.mpr ha, by simp [hvalue]⟩

theorem valueAt_mapIdx_iff {γ : Type} {f : β → Option γ} {g : Nat → α → β} {l : List α}
    {i : Nat} {c : γ} :
    ValueAt f (l.mapIdx g) i c ↔ ∃ a, l[i]? = some a ∧ f (g i a) = some c := by
  rw [ValueAt, List.getElem?_mapIdx]
  cases l[i]? with
  | none => simp
  | some a => simp

theorem map_fst_valuesAt (f : α → Option β) (l : List α) :
    (valuesAt f l).map Prod.fst = l.filterMap f := by
  have hvalues : l.filterMap f = (l.zipIdx.map Prod.fst).filterMap f := by
    rw [List.zipIdx_map_fst]
  rw [hvalues, valuesAt, List.map_filterMap, List.filterMap_map]
  congr 1
  funext ⟨a, i⟩
  rw [Option.map_map, Function.comp_apply]
  exact Option.map_id' ..

theorem pairwise_snd_valuesAt (f : α → Option β) (l : List α) :
    (valuesAt f l).Pairwise fun a b => a.2 < b.2 := by
  rw [valuesAt, List.pairwise_filterMap]
  apply (pairwise_snd_zipIdx l).imp
  rintro ⟨a, i⟩ ⟨b, j⟩ hij c hc d hd
  obtain ⟨_, -, rfl⟩ := Option.map_eq_some_iff.mp hc
  obtain ⟨_, -, rfl⟩ := Option.map_eq_some_iff.mp hd
  exact hij

/-! ## Leaving out one place -/

/-- The place in a list of the element at place `j` of the list without the
element at place `i`. -/
def placeBefore (i j : Nat) : Nat :=
  if j < i then j else j + 1

theorem placeBefore_lt_iff {i j k : Nat} : placeBefore i j < placeBefore i k ↔ j < k := by
  unfold placeBefore
  split_ifs <;> omega

theorem exists_placeBefore_eq_iff {i k : Nat} : (∃ j, placeBefore i j = k) ↔ k ≠ i := by
  unfold placeBefore
  constructor
  · rintro ⟨j, rfl⟩
    split_ifs <;> omega
  · intro hne
    rcases Nat.lt_or_gt_of_ne hne with h | h
    · exact ⟨k, if_pos h⟩
    · exact ⟨k - 1, by rw [if_neg (by omega)]; omega⟩

theorem getElem?_eraseIdx_eq (l : List α) (i j : Nat) :
    (l.eraseIdx i)[j]? = l[placeBefore i j]? := by
  rw [List.getElem?_eraseIdx, placeBefore]
  split_ifs <;> rfl

theorem find?_eraseIdx_eq_none_iff {p : α → Bool} {l : List α} {i : Nat} :
    (l.eraseIdx i).find? p = none ↔ ∀ j a, j ≠ i → l[j]? = some a → p a = false := by
  rw [List.find?_eq_none]
  constructor
  · intro h j a hj ha
    obtain ⟨k, rfl⟩ := exists_placeBefore_eq_iff.mpr hj
    rw [← getElem?_eraseIdx_eq] at ha
    simpa using h a (List.mem_of_getElem? ha)
  · intro h a ha
    obtain ⟨k, hk⟩ := List.mem_iff_getElem?.mp ha
    rw [getElem?_eraseIdx_eq] at hk
    rw [h _ a (exists_placeBefore_eq_iff.mp ⟨k, rfl⟩) hk]
    exact Bool.false_ne_true

/-- What is found once one place is left out stands at the first other place
where there is something to find. -/
theorem find?_eraseIdx_eq_some_iff {p : α → Bool} {l : List α} {i : Nat} {b : α} :
    (l.eraseIdx i).find? p = some b ↔
      ∃ j, j ≠ i ∧ l[j]? = some b ∧ p b = true ∧
        ∀ k a, k < j → k ≠ i → l[k]? = some a → p a = false := by
  rw [List.find?_eq_some_iff_getElem]
  constructor
  · rintro ⟨hb, j, hj, hjb, hfirst⟩
    have hplace := List.getElem?_eq_some_iff.mpr ⟨hj, hjb⟩
    rw [getElem?_eraseIdx_eq] at hplace
    refine ⟨_, exists_placeBefore_eq_iff.mp ⟨j, rfl⟩, hplace, hb, fun k a hk hki ha => ?_⟩
    obtain ⟨k, rfl⟩ := exists_placeBefore_eq_iff.mpr hki
    rw [← getElem?_eraseIdx_eq] at ha
    obtain ⟨-, rfl⟩ := List.getElem?_eq_some_iff.mp ha
    simpa using hfirst k (placeBefore_lt_iff.mp hk)
  · rintro ⟨j, hji, hplace, hb, hfirst⟩
    obtain ⟨j, rfl⟩ := exists_placeBefore_eq_iff.mpr hji
    rw [← getElem?_eraseIdx_eq] at hplace
    obtain ⟨hj, hjb⟩ := List.getElem?_eq_some_iff.mp hplace
    refine ⟨hb, j, hj, hjb, fun k hk => ?_⟩
    have hbefore := getElem?_eraseIdx_eq l i k
    rw [List.getElem?_eq_getElem (Nat.lt_trans hk hj)] at hbefore
    have hfalse := hfirst _ _ (placeBefore_lt_iff.mpr hk)
      (exists_placeBefore_eq_iff.mp ⟨k, rfl⟩) hbefore.symm
    simp [hfalse]

/-- An element without a value can be left out of the values of a list. -/
theorem filterMap_eraseIdx_of_eq_none {f : α → Option β} {l : List α} {i : Nat} {a : α}
    (ha : l[i]? = some a) (hnone : f a = none) : (l.eraseIdx i).filterMap f = l.filterMap f := by
  induction l generalizing i with
  | nil => rfl
  | cons b l ih =>
      cases i with
      | zero =>
          obtain rfl : b = a := by simpa using ha
          rw [List.eraseIdx_cons_zero, List.filterMap_cons_none hnone]
      | succ i =>
          rw [List.eraseIdx_cons_succ, List.filterMap_cons, List.filterMap_cons,
            ih (by simpa using ha)]

end Places

end CachedCalls
