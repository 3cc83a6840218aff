/-
# Going down from a directory

The path of an entry is the path of its directory with the name at its end. Only
the name's own text is behind the last slash, so the names can be read off such a
path, and different entries below one directory have different paths. Resolving
the path goes to the directory first and then down name by name, whatever links
the directory's own path goes through.
-/

import CachedCalls.Proofs.Files.Writing

namespace CachedCalls

namespace Path

/-! ## Names -/

/-- A text that can be the name of an entry. -/
def IsEntryName (name : String) : Prop :=
  name ∉ ["", ".", ".."] ∧ '/' ∉ name.toList ∧ '\x00' ∉ name.toList ∧
    Text.size name ≤ Entry.nameLimit

instance (name : String) : Decidable (IsEntryName name) :=
  inferInstanceAs (Decidable (_ ∧ _))

theorem IsEntryName.ne_empty {name : String} (h : IsEntryName name) : name ≠ "" :=
  fun heq => h.1 (heq ▸ List.mem_cons_self)

theorem IsEntryName.not_isAbsolute {name : String} (h : IsEntryName name) :
    isAbsolute name = false := by
  rw [isAbsolute, beq_eq_false_iff_ne]
  intro hhead
  exact h.2.1 (List.mem_of_mem_head? hhead)

/-! ## Pieces -/

theorem pieces_ne_nil (text : List Char) : pieces text ≠ [] := by
  cases text with
  | nil => exact List.cons_ne_nil _ _
  | cons c text =>
      rw [pieces]
      split_ifs
      · exact List.cons_ne_nil _ _
      · split <;> exact List.cons_ne_nil _ _

theorem pieces_append_slash (front back : List Char) :
    pieces (front ++ '/' :: back) = pieces front ++ pieces back := by
  induction front with
  | nil => simp [pieces]
  | cons c front ih =>
      rw [List.cons_append, pieces, pieces]
      split_ifs with hslash
      · rw [ih, List.cons_append]
      · rw [ih]
        cases hpieces : pieces front with
        | nil => exact absurd hpieces (pieces_ne_nil front)
        | cons piece rest => rfl

theorem pieces_of_not_mem {text : List Char} (h : '/' ∉ text) : pieces text = [text] := by
  induction text with
  | nil => rfl
  | cons c text ih =>
      rw [List.mem_cons, not_or] at h
      rw [pieces, if_neg (Ne.symm h.1), ih h.2]

/-- A path without the slash at its end, if there is one. -/
def trunk (path : String) : List Char :=
  if path.toList.getLast? = some '/' then path.toList.dropLast else path.toList

theorem pieces_toList (path : String) :
    pieces path.toList = pieces (trunk path) ∨ pieces path.toList = pieces (trunk path) ++ [[]] := by
  unfold trunk
  split_ifs with hslash
  · right
    obtain ⟨front, hfront⟩ := List.getLast?_eq_some_iff.mp hslash
    rw [hfront, pieces_append_slash, List.dropLast_concat]
    rfl
  · exact .inl rfl

theorem toList_join {path name : String} (hpath : path ≠ "") (hname : isAbsolute name = false) :
    (join path name).toList = trunk path ++ '/' :: name.toList := by
  have hempty : path.isEmpty = false := by simpa using hpath
  rw [join, hname, hempty, if_neg (by simp), trunk]
  split_ifs with hslash
  · obtain ⟨front, hfront⟩ := List.getLast?_eq_some_iff.mp hslash
    simp [hfront]
  · simp

theorem join_ne_empty {path name : String} (hpath : path ≠ "") (hname : isAbsolute name = false) :
    join path name ≠ "" := by
  intro h
  have htext := toList_join hpath hname
  simp [h] at htext

theorem trunk_join {path other : String} (hpath : path ≠ "") (hother : other ≠ "")
    (hrelative : isAbsolute other = false) :
    trunk (join path other) = trunk path ++ '/' :: trunk other := by
  obtain hnil | ⟨front, last, hlast⟩ := List.eq_nil_or_concat other.toList
  · exact absurd (by simpa using hnil) hother
  · rw [List.concat_eq_append] at hlast
    have htext : (join path other).toList = (trunk path ++ '/' :: front) ++ [last] := by
      rw [toList_join hpath hrelative, hlast]
      simp
    rw [trunk, htext, trunk.eq_1 other, hlast, List.getLast?_concat, List.getLast?_concat]
    split_ifs
    · rw [List.dropLast_concat, List.dropLast_concat]
    · simp

theorem IsEntryName.trunk_eq {name : String} (h : IsEntryName name) : trunk name = name.toList :=
  if_neg fun hlast => h.2.1 (List.mem_of_getLast? hlast)

/-! ## Paths below a directory -/

/-- The path below the given names. -/
def below (path : String) (names : List String) : String :=
  names.foldl join path

theorem below_cons (path name : String) (names : List String) :
    below path (name :: names) = below (join path name) names := rfl

theorem below_concat (path name : String) (names : List String) :
    below path (names ++ [name]) = join (below path names) name := by
  rw [below, List.foldl_append]
  rfl

theorem below_ne_empty {path : String} {names : List String} (hpath : path ≠ "")
    (hnames : ∀ name ∈ names, IsEntryName name) : below path names ≠ "" := by
  induction names generalizing path with
  | nil => exact hpath
  | cons name names ih =>
      rw [List.forall_mem_cons] at hnames
      exact ih (join_ne_empty hpath hnames.1.not_isAbsolute) hnames.2

theorem pieces_trunk_below {path : String} {names : List String} (hpath : path ≠ "")
    (hnames : ∀ name ∈ names, IsEntryName name) :
    pieces (trunk (below path names)) = pieces (trunk path) ++ names.map String.toList := by
  induction names generalizing path with
  | nil => simp [below]
  | cons name names ih =>
      rw [List.forall_mem_cons] at hnames
      rw [below_cons, ih (join_ne_empty hpath hnames.1.not_isAbsolute) hnames.2,
        trunk_join hpath hnames.1.ne_empty hnames.1.not_isAbsolute, pieces_append_slash,
        hnames.1.trunk_eq, pieces_of_not_mem hnames.1.2.1]
      simp

theorem pieces_below {path : String} {names : List String} (hpath : path ≠ "")
    (hnames : ∀ name ∈ names, IsEntryName name) (hne : names ≠ []) :
    pieces (below path names).toList = pieces (trunk path) ++ names.map String.toList := by
  obtain hnil | ⟨front, last, hlast⟩ := List.eq_nil_or_concat names
  · exact absurd hnil hne
  · rw [List.concat_eq_append] at hlast
    subst hlast
    rw [List.forall_mem_append] at hnames
    have hname : IsEntryName last := hnames.2 last List.mem_cons_self
    rw [below_concat, toList_join (below_ne_empty hpath hnames.1) hname.not_isAbsolute,
      pieces_append_slash, pieces_trunk_below hpath hnames.1, pieces_of_not_mem hname.2.1]
    simp

/-- Different names give different paths. -/
theorem below_injective {path : String} {names others : List String} (hpath : path ≠ "")
    (hnames : ∀ name ∈ names, IsEntryName name) (hothers : ∀ name ∈ others, IsEntryName name)
    (h : below path names = below path others) : names = others := by
  have hpieces := pieces_trunk_below hpath hnames
  rw [h, pieces_trunk_below hpath hothers, List.append_cancel_left_eq] at hpieces
  exact ((List.map_inj_right fun _ _ => String.toList_inj.mp).mp hpieces).symm

theorem isAbsolute_join {path other : String} (hpath : path ≠ "")
    (hrelative : isAbsolute other = false) : isAbsolute (join path other) = isAbsolute path := by
  have hempty : path.isEmpty = false := by simpa using hpath
  have hne : path.toList ≠ [] := by simpa using hpath
  obtain ⟨first, rest, htext⟩ := List.exists_cons_of_ne_nil hne
  rw [join, hrelative, hempty, if_neg (by simp)]
  split_ifs <;> simp [isAbsolute, htext]

theorem join_assoc {path middle other : String} (hmiddle : middle ≠ "")
    (hrelative : isAbsolute middle = false) (hrelative' : isAbsolute other = false) :
    join path (join middle other) = join (join path middle) other := by
  by_cases hpath : path = ""
  · simp [hpath, join]
  · have hinner : isAbsolute (join middle other) = false := by
      rw [isAbsolute_join hmiddle hrelative', hrelative]
    apply String.toList_injective
    rw [toList_join hpath hinner, toList_join hmiddle hrelative',
      toList_join (join_ne_empty hpath hrelative) hrelative', trunk_join hpath hmiddle hrelative,
      List.append_assoc, List.cons_append]

theorem absolute_join (cwd : String) {path other : String} (hpath : path ≠ "")
    (hrelative : isAbsolute other = false) :
    absolute cwd (join path other) = join (absolute cwd path) other := by
  rw [absolute, absolute, isAbsolute_join hpath hrelative]
  cases habsolute : isAbsolute path with
  | true => rfl
  | false => exact join_assoc hpath habsolute hrelative

theorem absolute_ne_empty (cwd : String) {path : String} (hpath : path ≠ "") : absolute cwd path ≠ "" := by
  rw [absolute]
  split_ifs with habsolute
  · exact hpath
  · by_cases hcwd : cwd = ""
    · simpa [hcwd, join] using hpath
    · exact join_ne_empty hcwd (by simpa using habsolute)

theorem absolute_below (cwd : String) {path : String} {names : List String} (hpath : path ≠ "")
    (hnames : ∀ name ∈ names, IsEntryName name) :
    absolute cwd (below path names) = below (absolute cwd path) names := by
  induction names generalizing path with
  | nil => rfl
  | cons name names ih =>
      rw [List.forall_mem_cons] at hnames
      rw [below_cons, below_cons, ih (join_ne_empty hpath hnames.1.not_isAbsolute) hnames.2,
        absolute_join cwd hpath hnames.1.not_isAbsolute]

theorem zero_not_mem_below {path : String} {names : List String} (hpath : path ≠ "")
    (hnames : ∀ name ∈ names, IsEntryName name) (hzero : '\x00' ∉ path.toList) :
    '\x00' ∉ (below path names).toList := by
  induction names generalizing path with
  | nil => exact hzero
  | cons name names ih =>
      rw [List.forall_mem_cons] at hnames
      apply ih (join_ne_empty hpath hnames.1.not_isAbsolute) hnames.2
      rw [toList_join hpath hnames.1.not_isAbsolute]
      have htrunk : trunk path ⊆ path.toList := by
        unfold trunk
        split_ifs
        · exact List.dropLast_subset _
        · exact List.Subset.refl _
      have hname := hnames.1.2.2.1
      simp only [List.mem_append, List.mem_cons, not_or]
      exact ⟨fun hmem => hzero (htrunk hmem), by decide, hname⟩

end Path

namespace Entry

/-! ## Resolution -/

/-- An empty piece in the middle of a path does nothing. -/
theorem locate_append_empty (root : Entry) (links : Nat) (here front : List String)
    {back : List String} (hback : back ≠ []) :
    root.locate links here (front ++ "" :: back) = root.locate links here (front ++ back) := by
  induction links, here, front using locate_induction root with
  | done links here =>
      rw [List.nil_append, List.nil_append, locate_cons]
      rfl
  | more links here piece rest hwalk hthrough =>
      rw [List.cons_append, List.cons_append, locate_cons, locate_cons]
      cases hstep : root.step here piece with
      | walk next => exact hwalk next hstep
      | arrive place fault => simp [hback]
      | through target =>
          cases links with
          | zero => rfl
          | succ fewer =>
              have hrest := hthrough target fewer hstep rfl
              rw [List.append_assoc, List.append_assoc] at hrest
              exact hrest
      | refuse fault => rfl

/-- Resolution ends early only at files and at free names. -/
theorem exists_file_of_step {root entry : Entry} {here names : List String} {piece : String}
    {fault : AccessFault} (h : root.step here piece = .arrive (.found names entry) fault) :
    ∃ contents, entry = file contents := by
  unfold step at h
  split_ifs at h
  split at h
  · cases h
  · cases h
    exact ⟨_, rfl⟩
  · cases h
  · cases h

/-- Behind a directory, resolution goes on from there. -/
theorem locate_append_of_directory {root : Entry} {links : Nat} {here front place : List String}
    {entries : List (String × Entry)}
    (h : root.locate links here front = .ok (.found place (directory entries))) :
    ∃ fewer, ∀ back, root.locate links here (front ++ back) = root.locate fewer place back := by
  induction links, here, front using locate_induction root with
  | done links here =>
      rw [locate_nil] at h
      split at h
      · cases h
        exact ⟨links, fun back => rfl⟩
      · cases h
  | more links here piece rest hwalk hthrough =>
      rw [locate_cons] at h
      cases hstep : root.step here piece with
      | walk next =>
          rw [hstep] at h
          obtain ⟨fewer, hfewer⟩ := hwalk next hstep h
          refine ⟨fewer, fun back => ?_⟩
          rw [List.cons_append, locate_cons, hstep]
          exact hfewer back
      | arrive place fault =>
          rw [hstep] at h
          dsimp only at h
          split_ifs at h
          cases h
          obtain ⟨contents, hcontents⟩ := exists_file_of_step hstep
          cases hcontents
      | through target =>
          rw [hstep] at h
          cases links with
          | zero => cases h
          | succ fewer =>
              obtain ⟨fewer', hfewer⟩ := hthrough target fewer hstep rfl h
              refine ⟨fewer', fun back => ?_⟩
              rw [List.cons_append, locate_cons, hstep, ← hfewer back, List.append_assoc]
      | refuse fault =>
          rw [hstep] at h
          cases h

end Entry

namespace Store

theorem locate_eq_of_ok {store : Store} {path : String} {place : Entry.Place}
    (h : store.locate path = .ok place) :
    '\x00' ∉ path.toList ∧ path ≠ "" ∧
      store.root.locate linkLimit [] (store.pieces path) = .ok place := by
  unfold locate at h
  split_ifs at h with hzero hempty hlong
  exact ⟨by simpa using hzero, by simpa using hempty, h⟩

/-- The path of an entry below a directory is resolved by going down from there. -/
theorem locate_below {store : Store} {path : String} {place names : List String}
    {entries : List (String × Entry)}
    (hpath : store.locate path = .ok (.found place (.directory entries)))
    (hnames : ∀ name ∈ names, Path.IsEntryName name) (hne : names ≠ [])
    (hshort : Text.size (Path.below path names) ≤ pathLimit) :
    ∃ links, store.locate (Path.below path names) = store.root.locate links place names := by
  obtain ⟨hzero, hempty, hplace⟩ := locate_eq_of_ok hpath
  have hzero' := Path.zero_not_mem_below hempty hnames hzero
  have hempty' := Path.below_ne_empty hempty hnames
  have hfull := Path.absolute_ne_empty store.cwd hempty
  have hpieces : store.pieces (Path.below path names) =
      (Path.pieces (Path.trunk (Path.absolute store.cwd path))).map String.ofList ++ names := by
    rw [pieces, Path.absolute_below store.cwd hempty hnames, Path.pieces_below hfull hnames hne,
      List.map_append, List.map_map]
    simp
  have hlocate : store.locate (Path.below path names) =
      store.root.locate linkLimit [] (store.pieces (Path.below path names)) := by
    rw [locate, if_neg (by simpa using hzero'), if_neg (by simpa using hempty'), if_neg (by omega)]
  rw [hlocate, hpieces]
  rw [pieces] at hplace
  rcases Path.pieces_toList (Path.absolute store.cwd path) with hsame | hslash
  · rw [hsame] at hplace
    obtain ⟨links, hlinks⟩ := Entry.locate_append_of_directory hplace
    exact ⟨links, hlinks names⟩
  · rw [hslash, List.map_append] at hplace
    obtain ⟨links, hlinks⟩ := Entry.locate_append_of_directory hplace
    refine ⟨links, ?_⟩
    rw [← hlinks names, ← Entry.locate_append_empty _ _ _ _ hne]
    simp

end Store

end CachedCalls
