/-
# Where a path leads without links

In a tree without links a path says itself where it leads: names go down, double
dots go up, and nothing else moves. Whatever a sequence of components does in between,
it amounts to climbing some levels and then going down some names. It therefore
leads back into the directory it began in, or below it, exactly when the names it
goes down begin with those of the levels it had climbed.
-/

import CachedCalls.Proofs.Files.Components

namespace CachedCalls

namespace Path

/-! ## Following components -/

/-- Where components lead from a directory if everything on the way exists and is
no link. The root stands at the beginning of a path only, where it does not move. -/
def follow (here : List String) : List Component → List String
  | [] => here
  | .root :: rest | .current :: rest => follow here rest
  | .parent :: rest => follow here.dropLast rest
  | .name text :: rest => follow (here ++ [text]) rest

/-- The names a path leads to, its dots and double dots resolved. -/
def resolve (path : String) : List String :=
  follow [] (components path)

theorem follow_append (here : List String) (first second : List Component) :
    follow here (first ++ second) = follow (follow here first) second := by
  induction first generalizing here with
  | nil => rfl
  | cons component first ih => cases component <;> exact ih _

/-- What components amount to: the number of levels they climb, and the names they
go down from there. -/
def detour : List Component → Nat × List String
  | [] => (0, [])
  | .root :: rest | .current :: rest => detour rest
  | .parent :: rest => ((detour rest).1 + 1, (detour rest).2)
  | .name text :: rest =>
    match detour rest with
    | (0, names) => (0, text :: names)
    | (levels + 1, names) => (levels, names)

theorem follow_eq_detour (here : List String) (inside : List Component) :
    follow here inside =
      here.take (here.length - (detour inside).1) ++ (detour inside).2 := by
  induction inside generalizing here with
  | nil => simp [follow, detour]
  | cons component inside ih =>
      cases component with
      | root => exact ih here
      | current => exact ih here
      | parent =>
          rw [follow, detour, ih, List.length_dropLast, List.dropLast_eq_take, List.take_take]
          congr 2
          omega
      | name text =>
          rw [follow, detour, ih]
          obtain ⟨levels, names⟩ := detour inside
          cases levels with
          | zero =>
              show (here ++ [text]).take (here ++ [text]).length ++ names =
                here.take here.length ++ text :: names
              rw [List.take_length, List.take_length, List.append_assoc, List.singleton_append]
          | succ levels =>
              -- Climbing one level takes the name away again.
              show (here ++ [text]).take ((here ++ [text]).length - (levels + 1)) ++ names =
                here.take (here.length - levels) ++ names
              rw [List.length_append, List.length_singleton, Nat.add_sub_add_right,
                List.take_append_of_le_length (Nat.sub_le _ _)]

/-- Components that climb out of a directory come down into it again, by the names
of the levels they climbed. -/
def ReturnsTo (here : List String) (inside : List Component) : Prop :=
  here.drop (here.length - (detour inside).1) <+: (detour inside).2

instance (here : List String) (inside : List Component) : Decidable (ReturnsTo here inside) :=
  inferInstanceAs (Decidable (_ <+: _))

theorem prefix_follow_iff {here : List String} {inside : List Component} :
    here <+: follow here inside ↔ ReturnsTo here inside := by
  let kept := here.length - (detour inside).1
  calc here <+: follow here inside
      ↔ here.take kept ++ here.drop kept <+: here.take kept ++ (detour inside).2 := by
        rw [List.take_append_drop, follow_eq_detour]
    _ ↔ ReturnsTo here inside := List.prefix_append_right_inj _

-- Up two levels and down by one of the two names is not enough.
example : ReturnsTo ["a", "b"] [.parent, .name "b"] ∧
    ¬ ReturnsTo ["a", "b"] [.parent, .parent, .name "b"] := by
  decide

end Path

namespace Entry

/-! ## Resolution without links -/

/-- A tree of directories and files, without links. -/
structure LinkFree (root : Entry) : Prop where
  exists_entries : ∃ entries, root = directory entries
  get?_ne_link : ∀ names target, root.get? names ≠ some (link target)

variable {root : Entry}

theorem get?_file_ne_link (contents : Contents) (names : List String) (target : String) :
    (file contents).get? names ≠ some (link target) := by
  cases names <;> exact nofun

theorem get?_directory_ne_link {entries : List (String × Entry)}
    (h : ∀ named ∈ entries, ∀ names target, named.2.get? names ≠ some (link target))
    (names : List String) (target : String) :
    (directory entries).get? names ≠ some (link target) := by
  cases names with
  | nil => exact nofun
  | cons name names =>
      rw [get?_cons]
      intro hlink
      obtain ⟨inner, hchild, hinner⟩ := Option.bind_eq_some_iff.mp hlink
      obtain ⟨before, after, rfl, -⟩ := List.lookup_eq_some_iff.mp hchild
      exact h (name, inner) (by simp) names target hinner

theorem exists_directory_dropLast {names : List String} {entries : List (String × Entry)}
    (h : root.get? names = some (directory entries)) :
    ∃ others, root.get? names.dropLast = some (directory others) := by
  obtain rfl | ⟨above, name, rfl⟩ := List.eq_nil_or_concat names
  · exact ⟨entries, h⟩
  · rw [List.concat_eq_append, get?_append] at h
    rw [List.concat_eq_append, List.dropLast_concat]
    obtain ⟨holder, hholder, hname⟩ := Option.bind_eq_some_iff.mp h
    obtain ⟨_, hchild, -⟩ := Option.bind_eq_some_iff.mp hname
    obtain ⟨others, rfl⟩ := exists_directory_of_child? hchild
    exact ⟨others, hholder⟩

theorem step_of_inner?_eq_none {here : List String} {piece : List Char}
    (h : Path.inner? piece = none) : root.step here (String.ofList piece) = .walk here := by
  unfold Path.inner? at h
  split_ifs at h with hskip
  rcases hskip with hempty | rfl
  · rw [List.isEmpty_iff.mp hempty]
    rfl
  · rfl

/-- What a piece can do without links: it stays, goes up, leads on through a directory,
arrives at a file or at nothing, or cannot be followed. -/
theorem LinkFree.step_cases (hlinks : root.LinkFree) (here : List String) (piece : String) :
    ((piece = "" ∨ piece = ".") ∧ root.step here piece = .walk here) ∨
    (piece = ".." ∧ root.step here piece = .walk here.dropLast) ∨
    (∃ entries, root.get? (here ++ [piece]) = some (directory entries) ∧
      root.step here piece = .walk (here ++ [piece])) ∨
    (∃ contents fault, root.step here piece =
      .arrive (.found (here ++ [piece]) (file contents)) fault) ∨
    (∃ names fault, root.step here piece = .arrive (.absent names) fault) ∨
    ∃ fault, root.step here piece = .refuse fault := by
  unfold step
  split_ifs with hstay hup
  · exact .inl ⟨hstay, rfl⟩
  · exact .inr (.inl ⟨hup, rfl⟩)
  · exact .inr (.inr (.inr (.inr (.inr ⟨_, rfl⟩))))
  · cases hget : root.get? (here ++ [piece]) with
    | none => exact .inr (.inr (.inr (.inr (.inl ⟨_, _, rfl⟩))))
    | some entry =>
        cases entry with
        | file contents => exact .inr (.inr (.inr (.inl ⟨_, _, rfl⟩)))
        | directory entries => exact .inr (.inr (.inl ⟨_, rfl, rfl⟩))
        | link target => exact absurd hget (hlinks.get?_ne_link _ _)

theorem LinkFree.step_of_name (hlinks : root.LinkFree) (here : List String) {piece : List Char}
    (h : piece ∉ [[], ['.'], ['.', '.']]) :
    (∃ entries, root.get? (here ++ [String.ofList piece]) = some (directory entries) ∧
      root.step here (String.ofList piece) = .walk (here ++ [String.ofList piece])) ∨
    (∃ contents fault, root.step here (String.ofList piece) =
      .arrive (.found (here ++ [String.ofList piece]) (file contents)) fault) ∨
    (∃ names fault, root.step here (String.ofList piece) = .arrive (.absent names) fault) ∨
    ∃ fault, root.step here (String.ofList piece) = .refuse fault := by
  have hne : ∀ text : String, text.toList ∈ [[], ['.'], ['.', '.']] → String.ofList piece ≠ text := by
    rintro text htext rfl
    rw [String.toList_ofList] at htext
    exact h htext
  refine ((hlinks.step_cases here _).resolve_left ?_).resolve_left ?_
  · rintro ⟨hempty | hdot, -⟩
    · exact hne "" (by decide) hempty
    · exact hne "." (by decide) hdot
  · rintro ⟨hup, -⟩
    exact hne ".." (by decide) hup

theorem LinkFree.step_ne_through (hlinks : root.LinkFree) (here : List String) (piece target : String) :
    root.step here piece ≠ .through target := by
  obtain ⟨-, h⟩ | ⟨-, h⟩ | ⟨_, -, h⟩ | ⟨_, _, h⟩ | ⟨_, _, h⟩ | ⟨_, h⟩ :=
    hlinks.step_cases here piece <;> simp [h]

/-- Resolution in a tree without links: one step for each piece. -/
def stride (root : Entry) (here : List String) : List String → Except AccessFault Place
  | [] =>
    match root.get? here with
    | some entry => .ok (.found here entry)
    | none => .error .notFound
  | piece :: rest =>
    match root.step here piece with
    | .walk next => stride root next rest
    | .arrive place fault => if rest.isEmpty then .ok place else .error fault
    | .through _ => .error .tooManyLinks
    | .refuse fault => .error fault

theorem LinkFree.locate_eq_stride (hlinks : root.LinkFree) (links : Nat) (here pieces : List String) :
    root.locate links here pieces = root.stride here pieces := by
  induction pieces generalizing here with
  | nil => exact locate_nil root links here
  | cons piece rest ih =>
      rw [locate_cons, stride]
      cases hstep : root.step here piece with
      | walk next => exact ih next
      | arrive place fault => rfl
      | through target => exact absurd hstep (hlinks.step_ne_through here piece target)
      | refuse fault => rfl

/-- Without links, resolution follows components. It ends at a file only behind the
file's own name. -/
theorem eq_follow_of_locate (hlinks : root.LinkFree) {links : Nat} {here names : List String}
    {pieces : List (List Char)} {entry : Entry}
    (hhere : ∃ entries, root.get? here = some (directory entries))
    (h : root.locate links here (pieces.map String.ofList) = .ok (.found names entry)) :
    names = Path.follow here (pieces.filterMap Path.inner?) ∧
      ((∃ entries, entry = directory entries) ∨
        ∃ inside text, pieces.filterMap Path.inner? = inside ++ [.name text]) := by
  induction pieces generalizing here with
  | nil =>
      obtain ⟨entries, hentries⟩ := hhere
      rw [List.map_nil, locate_nil, hentries] at h
      cases h
      exact ⟨rfl, .inl ⟨entries, rfl⟩⟩
  | cons piece pieces ih =>
      rw [List.map_cons, locate_cons] at h
      cases hinner : Path.inner? piece with
      | none =>
          rw [step_of_inner?_eq_none hinner] at h
          rw [List.filterMap_cons_none hinner]
          exact ih hhere h
      | some component =>
          rw [List.filterMap_cons_some hinner]
          have hbelow : ∀ next, (∃ entries, root.get? next = some (directory entries)) →
              root.step here (String.ofList piece) = .walk next →
              names = Path.follow next (pieces.filterMap Path.inner?) ∧
                ((∃ entries, entry = directory entries) ∨ ∃ inside text,
                  component :: pieces.filterMap Path.inner? = inside ++ [.name text]) := by
            intro next hnext hstep
            rw [hstep] at h
            obtain ⟨hnames, hlast⟩ := ih hnext h
            refine ⟨hnames, hlast.imp_right ?_⟩
            rintro ⟨inside, text, hinside⟩
            exact ⟨component :: inside, text, by rw [hinside, List.cons_append]⟩
          obtain ⟨rfl, rfl⟩ | ⟨hname, rfl⟩ := Path.inner?_eq_some hinner
          · obtain ⟨entries, hentries⟩ := hhere
            exact hbelow _ (exists_directory_dropLast hentries) rfl
          · obtain ⟨entries, hget, hstep⟩ | ⟨contents, fault, hstep⟩ | ⟨_, fault, hstep⟩ |
              ⟨fault, hstep⟩ := hlinks.step_of_name here hname
            · exact hbelow _ ⟨entries, hget⟩ hstep
            · -- A file must be named by the last piece.
              cases pieces with
              | nil =>
                  rw [hstep] at h
                  cases h
                  exact ⟨rfl, .inr ⟨[], _, rfl⟩⟩
              | cons next pieces =>
                  rw [hstep] at h
                  cases h
            · rw [hstep] at h
              cases pieces <;> cases h
            · rw [hstep] at h
              cases h

end Entry

theorem Store.locate_eq_stride {store : Store} (hlinks : store.root.LinkFree) (path : String) :
    store.locate path =
      if path.toList.contains '\x00' then .error .zeroInPath
      else if path.isEmpty then .error .notFound
      else if pathLimit < Text.size path then .error .nameTooLong
      else store.root.stride [] (store.pieces path) := by
  rw [locate, hlinks.locate_eq_stride]

end CachedCalls
