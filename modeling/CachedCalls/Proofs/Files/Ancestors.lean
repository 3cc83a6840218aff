/-
# Paths above a path

The paths above an absolute path are cut off its text one after the other, each in
front of a piece that counts and of the slashes and dots before this piece. So each of
them is a beginning of the path, as a text and by its components. The paths above the
nearest of them are the others: to go up repeatedly is to go up one step at a time.
-/

import CachedCalls.Proofs.Files.Components

namespace CachedCalls.Path

/-! ## Pieces joined again -/

theorem intercalate_pieces (text : List Char) : ['/'].intercalate (pieces text) = text := by
  induction text with
  | nil => rfl
  | cons c text ih =>
      obtain ⟨first, rest, hpieces⟩ := List.exists_cons_of_ne_nil (pieces_ne_nil text)
      rw [pieces]
      rw [hpieces] at ih ⊢
      split_ifs with hslash
      · rw [List.intercalate_cons_cons, ih, hslash]
        rfl
      · cases rest with
        | nil =>
            rw [← ih]
            simp
        | cons second rest =>
            rw [← ih, List.intercalate_cons_cons, List.intercalate_cons_cons, List.cons_append,
              List.cons_append]

theorem intercalate_prefix {front all : List (List Char)} (h : front <+: all) :
    ['/'].intercalate front <+: ['/'].intercalate all := by
  obtain ⟨back, rfl⟩ := h
  induction front with
  | nil => exact List.nil_prefix
  | cons piece front ih =>
      cases front with
      | nil =>
          cases back with
          | nil => exact List.prefix_rfl
          | cons next back =>
              rw [List.singleton_append, List.intercalate_cons_cons, List.append_assoc]
              simp
      | cons next front =>
          rw [List.cons_append, List.cons_append, List.intercalate_cons_cons,
            List.intercalate_cons_cons, List.prefix_append_right_inj]
          exact ih

/-! ## Slices -/

variable {path directory : String} {reversed : List (List Char)}

theorem trimmed_suffix (reversed : List (List Char)) : trimmed reversed <:+ reversed :=
  List.dropWhile_suffix _

theorem filterMap_trimmed (reversed : List (List Char)) :
    (trimmed reversed).filterMap inner? = reversed.filterMap inner? := by
  induction reversed with
  | nil => rfl
  | cons piece rest ih =>
      rw [trimmed, List.dropWhile_cons]
      split_ifs with hskip
      · rw [← trimmed, ih, List.filterMap_cons_none (Option.isNone_iff_eq_none.mp hskip)]
      · rfl

theorem slicesAbove_trimmed (beginning : List Char) (reversed : List (List Char)) :
    slicesAbove beginning (trimmed reversed) = slicesAbove beginning reversed := by
  induction reversed with
  | nil => rfl
  | cons piece rest ih =>
      rw [trimmed, List.dropWhile_cons]
      split_ifs with hskip
      · rw [← trimmed, ih, slicesAbove, if_pos hskip]
      · rfl

/-- Nothing stands above pieces of which none counts. Otherwise the last one that counts is cut off,
and the paths above it are those above what remains. -/
theorem slicesAbove_cases (reversed : List (List Char)) :
    (reversed.filterMap inner? = [] ∧ slicesAbove ['/'] reversed = []) ∨
    ∃ rest component, rest <:+ reversed ∧
      reversed.filterMap inner? = component :: rest.filterMap inner? ∧
      slicesAbove ['/'] reversed = slice ['/'] rest :: slicesAbove ['/'] rest := by
  induction reversed with
  | nil => exact .inl ⟨rfl, rfl⟩
  | cons piece rest ih =>
      rw [slicesAbove]
      cases hinner : inner? piece with
      | some component =>
          refine .inr ⟨rest, component, List.suffix_cons piece rest, ?_, rfl⟩
          rw [List.filterMap_cons_some hinner]
      | none =>
          rw [List.filterMap_cons_none hinner, Option.isNone_none, if_pos rfl]
          refine ih.imp_right ?_
          rintro ⟨kept, component, hkept, hcut⟩
          exact ⟨kept, component, hkept.trans (List.suffix_cons piece rest), hcut⟩

theorem exists_slice_of_mem_slicesAbove (hmem : directory ∈ slicesAbove ['/'] reversed) :
    ∃ rest, rest <:+ reversed ∧ directory = slice ['/'] rest := by
  induction reversed with
  | nil => cases hmem
  | cons piece rest ih =>
      have hsuffix := List.suffix_cons piece rest
      have hrest : directory ∈ slicesAbove ['/'] rest →
          ∃ kept, kept <:+ piece :: rest ∧ directory = slice ['/'] kept := by
        intro hmem
        obtain ⟨kept, hkept, hdirectory⟩ := ih hmem
        exact ⟨kept, hkept.trans hsuffix, hdirectory⟩
      rw [slicesAbove] at hmem
      split_ifs at hmem
      · exact hrest hmem
      · obtain rfl | hmem := List.mem_cons.mp hmem
        · exact ⟨rest, hsuffix, rfl⟩
        · exact hrest hmem

theorem toList_slice (reversed : List (List Char)) :
    (slice ['/'] reversed).toList = '/' :: ['/'].intercalate (trimmed reversed).reverse := by
  rw [slice, String.toList_ofList, List.singleton_append]

theorem isAbsolute_slice (reversed : List (List Char)) :
    isAbsolute (slice ['/'] reversed) = true := by
  rw [isAbsolute, toList_slice]
  rfl

/-! ## Absolute paths -/

/-- The pieces of an absolute path behind the root, the last one first. -/
def reversedPieces (path : String) : List (List Char) :=
  (pieces (path.toList.drop 1)).reverse

theorem slash_not_mem_of_mem_reversedPieces {piece : List Char}
    (h : piece ∈ reversedPieces path) : '/' ∉ piece :=
  slash_not_mem_of_mem_pieces (List.mem_reverse.mp h)

section Absolute

variable (h : isAbsolute path = true)
include h

theorem toList_of_isAbsolute : path.toList = '/' :: path.toList.drop 1 := by
  cases htext : path.toList with
  | nil => simp [isAbsolute, htext] at h
  | cons c text =>
      have hc : c = '/' := by simpa [isAbsolute, htext] using h
      rw [hc, List.drop_one, List.tail_cons]

theorem above_of_isAbsolute : above path = slicesAbove ['/'] (reversedPieces path) := by
  rw [above, beginning, if_pos h]
  rfl

theorem innerComponents_of_isAbsolute :
    innerComponents path = ((reversedPieces path).filterMap inner?).reverse := by
  have hroot : pieces path.toList = [] :: pieces (path.toList.drop 1) :=
    (congrArg pieces (toList_of_isAbsolute h)).trans (by rw [pieces, if_pos rfl])
  rw [innerComponents, hroot, reversedPieces, List.filterMap_reverse, List.reverse_reverse]
  rfl

end Absolute

/-- A slice has the pieces it was made of, but for those at its end that do not count. If none
counts, an empty one is left. -/
theorem reversedPieces_slice (h : ∀ piece ∈ reversed, '/' ∉ piece) :
    reversedPieces (slice ['/'] reversed) =
      if (trimmed reversed).isEmpty then [[]] else trimmed reversed := by
  rw [reversedPieces, toList_slice, List.drop_one, List.tail_cons]
  split_ifs with hempty
  · rw [List.isEmpty_iff.mp hempty]
    rfl
  · have hslash : ∀ piece ∈ (trimmed reversed).reverse, '/' ∉ piece := fun piece hmem =>
      h piece ((trimmed_suffix reversed).subset (List.mem_reverse.mp hmem))
    rw [pieces_intercalate (by simpa using hempty) hslash, List.reverse_reverse]

theorem components_slice (h : ∀ piece ∈ reversed, '/' ∉ piece) :
    components (slice ['/'] reversed) = .root :: (reversed.filterMap inner?).reverse := by
  have habsolute := isAbsolute_slice reversed
  rw [components_of_isAbsolute habsolute, innerComponents_of_isAbsolute habsolute,
    reversedPieces_slice h, ← filterMap_trimmed reversed]
  split_ifs with hempty
  · rw [List.isEmpty_iff.mp hempty]
    rfl
  · rfl

theorem above_slice (h : ∀ piece ∈ reversed, '/' ∉ piece) :
    above (slice ['/'] reversed) = slicesAbove ['/'] reversed := by
  rw [above_of_isAbsolute (isAbsolute_slice reversed), reversedPieces_slice h,
    ← slicesAbove_trimmed ['/'] reversed]
  split_ifs with hempty
  · rw [List.isEmpty_iff.mp hempty]
    rfl
  · rfl

/-! ## Above an absolute path -/

section Above

variable (h : isAbsolute path = true)
include h

/-- To go up repeatedly is to go up one step at a time. -/
theorem ancestors_eq :
    ancestors path = path :: (parent? path).elim [] ancestors := by
  rw [ancestors, parent?, above_of_isAbsolute h]
  obtain ⟨-, habove⟩ | ⟨rest, component, hrest, -, habove⟩ := slicesAbove_cases (reversedPieces path)
  · rw [habove]
    rfl
  · have hslash : ∀ piece ∈ rest, '/' ∉ piece := fun piece hmem =>
      slash_not_mem_of_mem_reversedPieces (hrest.subset hmem)
    rw [habove, List.head?_cons, Option.elim_some, ancestors, above_slice hslash]

theorem isAbsolute_of_mem_ancestors (hmem : directory ∈ ancestors path) :
    isAbsolute directory = true := by
  rw [ancestors, above_of_isAbsolute h] at hmem
  obtain rfl | hmem := List.mem_cons.mp hmem
  · exact h
  · obtain ⟨rest, -, rfl⟩ := exists_slice_of_mem_slicesAbove hmem
    exact isAbsolute_slice rest

/-- What stands above a path is part of its text. -/
theorem toList_prefix_of_mem_ancestors (hmem : directory ∈ ancestors path) :
    directory.toList <+: path.toList := by
  rw [ancestors, above_of_isAbsolute h] at hmem
  obtain rfl | hmem := List.mem_cons.mp hmem
  · exact List.prefix_rfl
  · obtain ⟨rest, hrest, rfl⟩ := exists_slice_of_mem_slicesAbove hmem
    have hpieces : (trimmed rest).reverse <+: pieces (path.toList.drop 1) := by
      rw [← List.reverse_suffix, List.reverse_reverse]
      exact (trimmed_suffix rest).trans hrest
    rw [toList_slice, toList_of_isAbsolute h, List.cons_prefix_cons]
    refine ⟨rfl, ?_⟩
    have hjoined := intercalate_prefix hpieces
    rwa [intercalate_pieces] at hjoined

theorem components_prefix_of_mem_ancestors (hmem : directory ∈ ancestors path) :
    components directory <+: components path := by
  rw [ancestors, above_of_isAbsolute h] at hmem
  obtain rfl | hmem := List.mem_cons.mp hmem
  · exact List.prefix_rfl
  · obtain ⟨rest, hrest, rfl⟩ := exists_slice_of_mem_slicesAbove hmem
    have hslash : ∀ piece ∈ rest, '/' ∉ piece := fun piece hmem =>
      slash_not_mem_of_mem_reversedPieces (hrest.subset hmem)
    rw [components_slice hslash, components_of_isAbsolute h, innerComponents_of_isAbsolute h,
      List.cons_prefix_cons, List.reverse_prefix]
    exact ⟨rfl, hrest.filterMap inner?⟩

theorem isAbsolute_parent? : isAbsolute ((parent? path).getD path) = true := by
  apply isAbsolute_of_mem_ancestors h
  rw [ancestors, parent?]
  cases above path with
  | nil => exact List.mem_cons_self
  | cons first others => exact List.mem_cons_of_mem _ List.mem_cons_self

/-- The path above a path that ends in a name. -/
theorem components_parent? {text : String} {inside : List Component}
    (hinside : innerComponents path = inside ++ [.name text]) :
    components ((parent? path).getD path) = .root :: inside := by
  have hreversed : (reversedPieces path).filterMap inner? = .name text :: inside.reverse := by
    rw [← List.reverse_inj, ← innerComponents_of_isAbsolute h, hinside]
    simp
  obtain ⟨hnone, -⟩ | ⟨rest, component, hrest, hcut, habove⟩ := slicesAbove_cases (reversedPieces path)
  · rw [hreversed] at hnone
    cases hnone
  · have hslash : ∀ piece ∈ rest, '/' ∉ piece := fun piece hmem =>
      slash_not_mem_of_mem_reversedPieces (hrest.subset hmem)
    have hbehind : rest.filterMap inner? = inside.reverse := by
      rw [hreversed] at hcut
      exact (List.cons.inj hcut).2.symm
    rw [parent?, above_of_isAbsolute h, habove, List.head?_cons, Option.getD_some,
      components_slice hslash, hbehind, List.reverse_reverse]

end Above

end CachedCalls.Path
