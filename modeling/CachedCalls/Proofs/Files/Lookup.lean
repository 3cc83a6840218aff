/-
# Looking into a file tree

What can be seen at a place of a file tree is a file with its contents, a link
with its target, or the names in a directory. Replacing the contents of one file
changes what is seen at that place and nowhere else.

Path resolution sees less than that: whether a step leads to a file, to a
directory or through a link. Trees that agree in this send every path to the same
place, so a path may be resolved before or after files are written.
-/

import CachedCalls.Files.Store
import Mathlib.Tactic.SplitIfs

namespace CachedCalls

namespace Entry

/-! ## Entries below a directory -/

theorem get?_cons (root : Entry) (name : String) (names : List String) :
    root.get? (name :: names) = (root.child? name).bind (get? names) := rfl

theorem get?_append (root : Entry) (above below : List String) :
    root.get? (above ++ below) = (root.get? above).bind (get? below) := by
  induction above generalizing root with
  | nil => rfl
  | cons name above ih =>
      rw [List.cons_append, get?_cons, get?_cons, Option.bind_assoc]
      congr 1
      funext entry
      exact ih entry

theorem exists_directory_of_child? {root entry : Entry} {name : String}
    (h : root.child? name = some entry) : ∃ entries, root = directory entries := by
  cases root with
  | directory entries => exact ⟨entries, rfl⟩
  | file contents => cases h
  | link target => cases h

theorem lookup_cons_eq (name other : String) (entry : Entry) (rest : List (String × Entry)) :
    ((name, entry) :: rest).lookup other =
      if other = name then some entry else rest.lookup other := by
  rw [List.lookup_cons]
  by_cases h : other = name
  · simp [h]
  · have hother : (other == name) = false := beq_eq_false_iff_ne.mpr h
    simp [h, hother]

theorem lookup_setNamed (name other : String) (new : Entry) (entries : List (String × Entry)) :
    (setNamed name new entries).lookup other =
      if other = name then some new else entries.lookup other := by
  induction entries with
  | nil => rw [setNamed, lookup_cons_eq]
  | cons first rest ih =>
      obtain ⟨present, entry⟩ := first
      rw [setNamed, lookup_cons_eq]
      by_cases hpresent : present = name
      · rw [if_pos hpresent, lookup_cons_eq, hpresent]
        split_ifs <;> rfl
      · rw [if_neg hpresent, lookup_cons_eq, ih]
        by_cases hother : other = present
        · rw [if_pos hother, if_pos hother, if_neg (hother ▸ hpresent)]
        · rw [if_neg hother, if_neg hother]

/-- Replacing an entry that is there leaves the names as they are. -/
theorem map_fst_setNamed {name : String} {new old : Entry} {entries : List (String × Entry)}
    (h : entries.lookup name = some old) :
    (setNamed name new entries).map (·.1) = entries.map (·.1) := by
  induction entries with
  | nil => cases h
  | cons first rest ih =>
      obtain ⟨present, entry⟩ := first
      rw [setNamed]
      split_ifs with hpresent
      · rw [List.map_cons, List.map_cons, hpresent]
      · rw [lookup_cons_eq, if_neg (Ne.symm hpresent)] at h
        rw [List.map_cons, List.map_cons, ih h]

/-- What can be seen of an entry without looking below it. -/
inductive Surface where
  | file (contents : Contents)
  | directory (names : List String)
  | link (target : String)

def surface : Entry → Surface
  | file contents => .file contents
  | directory entries => .directory (entries.map (·.1))
  | link target => .link target

theorem map_surface_eq_file_iff {seen : Option Entry} {contents : Contents} :
    seen.map surface = some (.file contents) ↔ seen = some (file contents) := by
  constructor
  · intro h
    obtain ⟨entry, rfl, hsurface⟩ := Option.map_eq_some_iff.mp h
    cases entry <;> cases hsurface
    rfl
  · rintro rfl
    rfl

/-- Replacing the contents of a file changes what is seen there and nowhere else. -/
theorem surface_setAt {root : Entry} {names : List String} {old : Contents}
    (h : root.get? names = some (file old)) (new : Contents) (other : List String) :
    ((root.setAt names (file new)).get? other).map surface =
      if other = names then some (.file new) else (root.get? other).map surface := by
  induction names generalizing root other with
  | nil =>
      obtain rfl : root = file old := by simpa [get?] using h
      cases other with
      | nil => rfl
      | cons name other => simp [setAt, get?_cons, child?, entries]
  | cons name names ih =>
      rw [get?_cons] at h
      obtain ⟨inner, hchild, hinner⟩ := Option.bind_eq_some_iff.mp h
      rw [setAt, hchild, Option.getD_some]
      cases other with
      | nil =>
          -- Only a directory has a child, and its names do not change.
          cases root with
          | file contents => simp [child?, entries] at hchild
          | link target => simp [child?, entries] at hchild
          | directory inside =>
              have hnames : (setNamed name (inner.setAt names (file new)) inside).map (·.1) =
                  inside.map (·.1) := map_fst_setNamed hchild
              rw [if_neg (List.cons_ne_nil _ _).symm, get?, get?, Option.map_some, surface,
                entries, hnames]
              rfl
      | cons first other =>
          have hset : (directory (setNamed name (inner.setAt names (file new)) root.entries)).child?
              first = if first = name then some (inner.setAt names (file new))
                else root.child? first :=
            lookup_setNamed _ _ _ _
          rw [get?_cons, get?_cons, hset]
          by_cases hfirst : first = name
          · subst hfirst
            rw [if_pos rfl, hchild, Option.bind_some, Option.bind_some, ih hinner]
            simp
          · simp [hfirst]

/-! ## One step of path resolution -/

/-- What the next piece of a path does. -/
inductive Step where
  /-- It leads to a directory, from which the rest of the path is followed. -/
  | walk (here : List String)
  /-- It must be the last piece, or else the path ends in the fault. -/
  | arrive (place : Place) (fault : AccessFault)
  /-- It leads to a link. -/
  | through (target : String)
  | refuse (fault : AccessFault)

def step (root : Entry) (here : List String) (piece : String) : Step :=
  if piece = "" ∨ piece = "." then .walk here
  else if piece = ".." then .walk here.dropLast
  else if nameLimit < Text.size piece then .refuse .nameTooLong
  else
    match root.get? (here ++ [piece]) with
    | none => .arrive (.absent (here ++ [piece])) .notFound
    | some (file contents) => .arrive (.found (here ++ [piece]) (file contents)) .notADirectory
    | some (directory _) => .walk (here ++ [piece])
    | some (link target) => .through target

/-- The directory from which the target of a link is followed. -/
def linkBase (here : List String) (target : String) : List String :=
  if Path.isAbsolute target then [] else here

/-- The pieces of the target of a link. -/
def linkPieces (target : String) : List String :=
  (Path.pieces target.toList).map String.ofList

theorem locate_nil (root : Entry) (links : Nat) (here : List String) :
    root.locate links here [] =
      match root.get? here with
      | some entry => .ok (.found here entry)
      | none => .error .notFound := by
  unfold locate
  cases root.get? here <;> rfl

theorem locate_cons (root : Entry) (links : Nat) (here : List String) (piece : String)
    (rest : List String) :
    root.locate links here (piece :: rest) =
      match root.step here piece, links with
      | .walk next, links => root.locate links next rest
      | .arrive place fault, _ => if rest.isEmpty then .ok place else .error fault
      | .through _, 0 => .error .tooManyLinks
      | .through target, links + 1 =>
        root.locate links (linkBase here target) (linkPieces target ++ rest)
      | .refuse fault, _ => .error fault := by
  rw [locate, step]
  by_cases hstay : piece = "" ∨ piece = "."
  · rw [if_pos hstay, if_pos hstay]
  by_cases hup : piece = ".."
  · rw [if_neg hstay, if_neg hstay, if_pos hup, if_pos hup]
  by_cases hlong : nameLimit < Text.size piece
  · rw [if_neg hstay, if_neg hstay, if_neg hup, if_neg hup, if_pos hlong, if_pos hlong]
  rw [if_neg hstay, if_neg hstay, if_neg hup, if_neg hup, if_neg hlong, if_neg hlong]
  cases root.get? (here ++ [piece]) with
  | none => rfl
  | some entry =>
      cases entry with
      | file contents => rfl
      | directory entries => rfl
      | link target => cases links <;> rfl

/-- A property of all resolutions follows the steps: it may be used for what a
directory or a link leaves to be resolved. -/
theorem locate_induction {motive : Nat → List String → List String → Prop} (root : Entry)
    (done : ∀ links here, motive links here [])
    (more : ∀ links here piece rest,
      (∀ next, root.step here piece = .walk next → motive links next rest) →
      (∀ target fewer, root.step here piece = .through target → links = fewer + 1 →
        motive fewer (linkBase here target) (linkPieces target ++ rest)) →
      motive links here (piece :: rest)) :
    ∀ links here pieces, motive links here pieces
  | links, here, [] => done links here
  | links, here, piece :: rest =>
    more links here piece rest (fun next _ => locate_induction root done more links next rest)
      fun target fewer _ _hlinks =>
        locate_induction root done more fewer (linkBase here target) (linkPieces target ++ rest)
termination_by links _ pieces => (links, pieces.length)

/-! ## Resolution in similar trees -/

/-- What path resolution learns at a place. -/
inductive Signpost where
  | file
  | directory
  | link (target : String)

def Surface.signpost : Surface → Signpost
  | file _ => .file
  | directory _ => .directory
  | link target => .link target

/-- Two trees have the same signposts everywhere. -/
def SameWays (root other : Entry) : Prop :=
  ∀ names, (other.get? names).map (·.surface.signpost) = (root.get? names).map (·.surface.signpost)

theorem SameWays.refl (root : Entry) : SameWays root root :=
  fun _ => rfl

theorem SameWays.symm {root other : Entry} (h : SameWays root other) : SameWays other root :=
  fun names => (h names).symm

theorem SameWays.trans {root middle other : Entry} (h : SameWays root middle)
    (h' : SameWays middle other) : SameWays root other :=
  fun names => (h' names).trans (h names)

theorem sameWays_setAt {root : Entry} {names : List String} {old : Contents}
    (h : root.get? names = some (file old)) (new : Contents) :
    SameWays root (root.setAt names (file new)) := by
  intro other
  have hsurface := congrArg (Option.map Surface.signpost) (surface_setAt h new other)
  rw [Option.map_map] at hsurface
  rw [← Function.comp_def, hsurface]
  split_ifs with hother
  · rw [hother, h]
    rfl
  · rw [Option.map_map]

/-- A place of one tree as it is seen in another. -/
def Place.seenIn (root : Entry) : Place → Place
  | found names entry => .found names ((root.get? names).getD entry)
  | absent names => .absent names

/-- A step in one tree as it is seen in another. -/
def Step.seenIn (root : Entry) : Step → Step
  | walk here => .walk here
  | arrive place fault => .arrive (place.seenIn root) fault
  | through target => .through target
  | refuse fault => .refuse fault

theorem step_of_sameWays {root other : Entry} (h : SameWays root other) (here : List String)
    (piece : String) : other.step here piece = (root.step here piece).seenIn other := by
  have hplace := h (here ++ [piece])
  unfold step
  split_ifs
  · rfl
  · rfl
  · rfl
  · cases hroot : root.get? (here ++ [piece]) with
    | none =>
        rw [hroot, Option.map_none, Option.map_eq_none_iff] at hplace
        rw [hplace]
        rfl
    | some entry =>
        rw [hroot, Option.map_some, Option.map_eq_some_iff] at hplace
        obtain ⟨seen, hseen, hsign⟩ := hplace
        rw [hseen]
        cases entry <;> cases seen <;> cases hsign <;> simp [Step.seenIn, Place.seenIn, hseen]

/-- Path resolution reads nothing but signposts. -/
theorem locate_of_sameWays {root other : Entry} (h : SameWays root other) (links : Nat)
    (here pieces : List String) :
    other.locate links here pieces = (root.locate links here pieces).map (Place.seenIn other) := by
  induction links, here, pieces using locate_induction root with
  | done links here =>
      have hplace := h here
      rw [locate_nil, locate_nil]
      cases hroot : root.get? here with
      | none =>
          rw [hroot, Option.map_none, Option.map_eq_none_iff] at hplace
          rw [hplace]
          rfl
      | some entry =>
          rw [hroot, Option.map_some, Option.map_eq_some_iff] at hplace
          obtain ⟨seen, hseen, -⟩ := hplace
          rw [hseen]
          simp [Except.map, Place.seenIn, hseen]
  | more links here piece rest hwalk hthrough =>
      rw [locate_cons, locate_cons, step_of_sameWays h]
      cases hstep : root.step here piece with
      | walk next => exact hwalk next hstep
      | arrive place fault => cases rest <;> rfl
      | through target =>
          cases links with
          | zero => rfl
          | succ fewer => exact hthrough target fewer hstep rfl
      | refuse fault => rfl

theorem get?_of_step {root entry : Entry} {here names : List String} {piece : String}
    {fault : AccessFault} (h : root.step here piece = .arrive (.found names entry) fault) :
    root.get? names = some entry := by
  unfold step at h
  split_ifs at h
  split at h
  · cases h
  · cases h
    assumption
  · cases h
  · cases h

/-- What is found at the end of a path is what stands at the place found. -/
theorem get?_of_locate {root : Entry} {links : Nat} {here pieces names : List String}
    {entry : Entry} (h : root.locate links here pieces = .ok (.found names entry)) :
    root.get? names = some entry := by
  induction links, here, pieces using locate_induction root with
  | done links here =>
      rw [locate_nil] at h
      cases hroot : root.get? here with
      | none => simp [hroot] at h
      | some present =>
          rw [hroot] at h
          cases h
          exact hroot
  | more links here piece rest hwalk hthrough =>
      rw [locate_cons] at h
      cases hstep : root.step here piece with
      | walk next =>
          rw [hstep] at h
          exact hwalk next hstep h
      | arrive place fault =>
          rw [hstep] at h
          simp only at h
          split_ifs at h
          cases h
          exact get?_of_step hstep
      | through target =>
          rw [hstep] at h
          cases links with
          | zero => cases h
          | succ fewer => exact hthrough target fewer hstep rfl h
      | refuse fault =>
          rw [hstep] at h
          cases h

end Entry

end CachedCalls
