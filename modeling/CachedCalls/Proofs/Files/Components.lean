/-
# Components of a path

The pieces between slashes are an inverse of joining with slashes, and a piece that
counts can be read off the component it stands for. So the pieces of a clean path are
the texts of its components; single dots and empty pieces never count. A path below a
directory has the components of the directory, and behind them those of its own pieces,
however either of them is spelled.
-/

import CachedCalls.Proofs.Files.Descent

namespace CachedCalls.Path

/-! ## Pieces -/

theorem slash_not_mem_of_mem_pieces {text piece : List Char} (h : piece ∈ pieces text) :
    '/' ∉ piece := by
  induction text generalizing piece with
  | nil =>
      obtain rfl := List.mem_singleton.mp h
      exact List.not_mem_nil
  | cons c text ih =>
      rw [pieces] at h
      split_ifs at h with hc
      · rcases List.mem_cons.mp h with rfl | hmem
        · exact List.not_mem_nil
        · exact ih hmem
      · cases hpieces : pieces text with
        | nil => exact absurd hpieces (pieces_ne_nil text)
        | cons first rest =>
            rw [hpieces] at h ih
            rcases List.mem_cons.mp h with rfl | hmem
            · rw [List.mem_cons, not_or]
              exact ⟨Ne.symm hc, ih List.mem_cons_self⟩
            · exact ih (List.mem_cons_of_mem _ hmem)

/-- Pieces without slashes come back after they were joined by slashes. -/
theorem pieces_intercalate {parts : List (List Char)} (hne : parts ≠ [])
    (h : ∀ part ∈ parts, '/' ∉ part) : pieces (['/'].intercalate parts) = parts := by
  induction parts with
  | nil => exact absurd rfl hne
  | cons first parts ih =>
      rw [List.forall_mem_cons] at h
      cases parts with
      | nil => simpa using pieces_of_not_mem h.1
      | cons second parts =>
          have hjoin : ['/'].intercalate (first :: second :: parts) =
              first ++ '/' :: ['/'].intercalate (second :: parts) := by
            simp [List.intercalate_cons_cons]
          rw [hjoin, pieces_append_slash, pieces_of_not_mem h.1, ih (List.cons_ne_nil _ _) h.2]
          rfl

/-- Where a piece may begin: at the beginning of a path, or behind a slash. -/
def EndsPiece (front : List Char) : Prop :=
  front = [] ∨ ∃ before, front = before ++ ['/']

theorem dropLast_pieces_append_slash {piece : List Char} (h : '/' ∉ piece) (back : List Char) :
    (pieces (piece ++ '/' :: back)).dropLast = piece :: (pieces back).dropLast := by
  rw [pieces_append_slash, pieces_of_not_mem h, List.singleton_append,
    List.dropLast_cons_of_ne_nil (pieces_ne_nil back)]

/-- A piece that is not the last one has a slash behind it. -/
theorem mem_dropLast_pieces_iff {text piece : List Char} :
    piece ∈ (pieces text).dropLast ↔
      '/' ∉ piece ∧ ∃ front back, EndsPiece front ∧ text = front ++ (piece ++ '/' :: back) := by
  constructor
  · intro hmem
    refine ⟨slash_not_mem_of_mem_pieces (List.dropLast_subset _ hmem), ?_⟩
    -- Cutting off the first piece leaves a shorter path.
    induction hlength : text.length using Nat.strongRecOn generalizing text with
    | ind n ih =>
      by_cases hslash : '/' ∈ text
      · obtain ⟨first, rest, rfl, hfirst⟩ := List.eq_append_cons_of_mem hslash
        rw [dropLast_pieces_append_slash hfirst, List.mem_cons] at hmem
        obtain rfl | hrest := hmem
        · exact ⟨[], rest, .inl rfl, rfl⟩
        · obtain ⟨front, back, hfront, rfl⟩ := ih _ (by simp [← hlength]; omega) hrest rfl
          refine ⟨first ++ '/' :: front, back, .inr ?_, by simp⟩
          obtain rfl | ⟨before, rfl⟩ := hfront
          · exact ⟨first, rfl⟩
          · exact ⟨first ++ '/' :: before, by simp⟩
      · rw [pieces_of_not_mem hslash] at hmem
        cases hmem
  · rintro ⟨hpiece, front, back, rfl | ⟨before, rfl⟩, rfl⟩
    · rw [List.nil_append, dropLast_pieces_append_slash hpiece]
      exact List.mem_cons_self
    · rw [List.append_assoc, List.singleton_append, pieces_append_slash,
        List.dropLast_append_of_ne_nil (pieces_ne_nil _), dropLast_pieces_append_slash hpiece]
      exact List.mem_append_right _ List.mem_cons_self

/-! ## Components between slashes -/

/-- A component that a piece between two slashes can stand for. -/
def Component.IsInner (component : Component) : Prop :=
  ∃ piece : List Char, '/' ∉ piece ∧ inner? piece = some component

/-- A piece that counts is a double dot or a name. -/
theorem inner?_eq_some {piece : List Char} {component : Component}
    (h : inner? piece = some component) :
    (piece = ['.', '.'] ∧ component = .parent) ∨
      (piece ∉ [[], ['.'], ['.', '.']] ∧ component = .name (String.ofList piece)) := by
  unfold inner? at h
  split_ifs at h with hskip hup
  · cases h
    exact .inl ⟨hup, rfl⟩
  · cases h
    rw [List.isEmpty_iff, not_or] at hskip
    exact .inr ⟨by simp [hskip, hup], rfl⟩

theorem toList_text_of_inner? {piece : List Char} {component : Component}
    (h : inner? piece = some component) : component.text.toList = piece := by
  obtain ⟨rfl, rfl⟩ | ⟨-, rfl⟩ := inner?_eq_some h
  · rfl
  · exact String.toList_ofList

namespace Component

variable {component : Component} (h : component.IsInner)
include h

theorem IsInner.slash_not_mem : '/' ∉ component.text.toList := by
  obtain ⟨piece, hslash, hpiece⟩ := h
  rwa [toList_text_of_inner? hpiece]

theorem IsInner.ne_root : component ≠ .root := by
  rintro rfl
  obtain ⟨piece, -, hpiece⟩ := h
  obtain ⟨-, hcomponent⟩ | ⟨-, hcomponent⟩ := inner?_eq_some hpiece <;> cases hcomponent

theorem IsInner.ne_current : component ≠ .current := by
  rintro rfl
  obtain ⟨piece, -, hpiece⟩ := h
  obtain ⟨-, hcomponent⟩ | ⟨-, hcomponent⟩ := inner?_eq_some hpiece <;> cases hcomponent

end Component

/-- The components of a path that its pieces stand for, without what its beginning
adds. -/
def innerComponents (path : String) : List Component :=
  (pieces path.toList).filterMap inner?

theorem isInner_of_mem_innerComponents {path : String} {component : Component}
    (h : component ∈ innerComponents path) : component.IsInner := by
  obtain ⟨piece, hpiece, hinner⟩ := List.mem_filterMap.mp h
  exact ⟨piece, slash_not_mem_of_mem_pieces hpiece, hinner⟩

theorem components_of_isAbsolute {path : String} (h : isAbsolute path = true) :
    components path = .root :: innerComponents path := by
  unfold components
  exact if_pos h

theorem filter_innerComponents (path : String) :
    (innerComponents path).filter (· ≠ .current) = innerComponents path :=
  List.filter_eq_self.mpr fun _ hmem => decide_eq_true (isInner_of_mem_innerComponents hmem).ne_current

/-- Single dots count at the beginning of a relative path only. -/
theorem filter_components (path : String) :
    (components path).filter (· ≠ .current) =
      if isAbsolute path then .root :: innerComponents path else innerComponents path := by
  have hcomponents : components path =
      if isAbsolute path then .root :: innerComponents path
      else if (pieces path.toList).head? = some ['.'] then .current :: innerComponents path
      else innerComponents path := rfl
  rw [hcomponents]
  split_ifs
  · rw [List.filter_cons_of_pos (by decide), filter_innerComponents]
  · rw [List.filter_cons_of_neg (by decide), filter_innerComponents]
  · exact filter_innerComponents path

/-! ## Paths put together from components -/

theorem toList_intercalate_texts (inside : List Component) :
    ("/".intercalate (inside.map (·.text))).toList =
      ['/'].intercalate (inside.map fun c => c.text.toList) := by
  simp [String.toList_intercalate, List.map_map, Function.comp_def]

/-- The pieces of a joined path are the texts of its components; the empty path has
one empty piece. -/
theorem pieces_intercalate_texts {inside : List Component} (h : ∀ c ∈ inside, c.IsInner) :
    pieces ("/".intercalate (inside.map (·.text))).toList =
      if inside.isEmpty then [[]] else inside.map fun c => c.text.toList := by
  rw [toList_intercalate_texts]
  cases inside with
  | nil => rfl
  | cons first inside =>
      refine pieces_intercalate (by simp) ?_
      rw [List.forall_mem_map]
      exact fun component hmem => (h component hmem).slash_not_mem

theorem pieces_ofComponents_root {inside : List Component} (h : ∀ c ∈ inside, c.IsInner) :
    pieces (ofComponents (.root :: inside)).toList =
      [] :: if inside.isEmpty then [[]] else inside.map fun c => c.text.toList := by
  have htext : (ofComponents (.root :: inside)).toList =
      [] ++ '/' :: ("/".intercalate (inside.map (·.text))).toList := by
    simp [ofComponents]
  rw [htext, pieces_append_slash, pieces_intercalate_texts h]
  rfl

/-! ## Clean paths -/

theorem ofComponents_of_isInner {inside : List Component} (h : ∀ c ∈ inside, c.IsInner) :
    ofComponents inside = "/".intercalate (inside.map (·.text)) := by
  cases inside with
  | nil => rfl
  | cons first inside =>
      cases first with
      | root => exact absurd rfl (h .root List.mem_cons_self).ne_root
      | current | parent | name text => rfl

theorem clean_components_of_not_isAbsolute {path : String} (h : isAbsolute path = false) :
    clean (components path) = ofComponents (innerComponents path) := by
  rw [clean, filter_components, h, if_neg Bool.false_ne_true]

theorem clean_innerComponents (path : String) :
    clean (innerComponents path) = ofComponents (innerComponents path) := by
  rw [clean, filter_innerComponents]

theorem pieces_clean (path : String) :
    pieces (clean (components path)).toList =
      (if isAbsolute path then [[]] else []) ++
        if (innerComponents path).isEmpty then [[]]
        else (innerComponents path).map fun c => c.text.toList := by
  have hinner : ∀ c ∈ innerComponents path, c.IsInner := fun _ => isInner_of_mem_innerComponents
  rw [clean, filter_components]
  split_ifs with habsolute hempty
  · rw [pieces_ofComponents_root hinner, if_pos hempty]
    rfl
  · rw [pieces_ofComponents_root hinner, if_neg hempty]
    rfl
  · rw [ofComponents_of_isInner hinner, pieces_intercalate_texts hinner, if_pos ‹_›]
    rfl
  · rw [ofComponents_of_isInner hinner, pieces_intercalate_texts hinner, if_neg ‹_›]
    rfl

theorem exists_text_eq_iff {inside : List Component} (h : ∀ c ∈ inside, c.IsInner)
    {piece : List Char} (hdots : piece ≠ ['.', '.']) :
    (∃ c ∈ inside, c.text.toList = piece) ↔ .name (String.ofList piece) ∈ inside := by
  constructor
  · rintro ⟨c, hmem, rfl⟩
    obtain ⟨piece, -, hpiece⟩ := h c hmem
    obtain ⟨-, rfl⟩ | ⟨-, rfl⟩ := inner?_eq_some hpiece
    · exact absurd rfl hdots
    · rwa [Component.text, String.ofList_toList]
  · exact fun hmem => ⟨_, hmem, String.toList_ofList⟩

/-- The names in a path are the pieces of the path when it is clean, and the last name
is the last piece. -/
theorem mem_dropLast_pieces_clean_iff (path : String) {piece : List Char} (hne : piece ≠ [])
    (hdots : piece ≠ ['.', '.']) :
    piece ∈ (pieces (clean (components path)).toList).dropLast ↔
      .name (String.ofList piece) ∈ ((components path).filter (· ≠ .current)).dropLast := by
  have hinner : ∀ c ∈ (innerComponents path).dropLast, c.IsInner :=
    fun _ hmem => isInner_of_mem_innerComponents (List.dropLast_subset _ hmem)
  have hbeginning : piece ∉ if isAbsolute path then [[]] else [] := by
    split_ifs <;> simp [hne]
  rw [pieces_clean, filter_components]
  cases hinside : innerComponents path with
  | nil => cases isAbsolute path <;> simp [hne]
  | cons first inside =>
      have hempty : ¬ (innerComponents path).isEmpty = true := by simp [hinside]
      rw [← hinside, if_neg hempty, List.dropLast_append_of_ne_nil (by simp [hinside]),
        List.mem_append, or_iff_right hbeginning, ← List.map_dropLast, List.mem_map,
        exists_text_eq_iff hinner hdots]
      split_ifs
      · rw [List.dropLast_cons_of_ne_nil (by simp [hinside]), List.mem_cons,
          or_iff_right Component.noConfusion]
      · rfl

/-! ## Paths below a directory -/

theorem ne_empty_of_isAbsolute {path : String} (h : isAbsolute path = true) : path ≠ "" := by
  rintro rfl
  cases h

/-- A path behind an absolute one adds what its own pieces stand for. -/
theorem components_join {path other : String} (hpath : isAbsolute path = true)
    (hother : isAbsolute other = false) :
    components (join path other) = components path ++ innerComponents other := by
  have hne := ne_empty_of_isAbsolute hpath
  have hjoin : isAbsolute (join path other) = true := by rw [isAbsolute_join hne hother, hpath]
  have htrunk : (pieces (trunk path)).filterMap inner? = innerComponents path := by
    unfold innerComponents
    rcases pieces_toList path with hsame | hslash
    · rw [hsame]
    · rw [hslash, List.filterMap_append]
      simp [inner?]
  rw [components_of_isAbsolute hjoin, components_of_isAbsolute hpath, innerComponents,
    toList_join hne hother, pieces_append_slash, List.filterMap_append, htrunk]
  rfl

end CachedCalls.Path
