/-
# Reading path patterns

A pattern is read from left to right into tokens. A doubled star means something different at the
start of a branch, at its end and between slashes; which of these it is can be decided from its
neighbours alone. Groups nest, so the reader keeps the enclosing branches on a stack.
-/

namespace CachedCalls.Glob

/-- One element of a pattern. -/
inductive Token where
  | literal (c : Char)
  /-- Exactly one byte. -/
  | anyByte
  /-- Any bytes, slashes included. -/
  | anyBytes
  /-- Any leading directories, or none. -/
  | leading
  /-- Everything below a directory. -/
  | trailing
  /-- Any directories between two slashes, or none. -/
  | between
  /-- One byte inside, or outside, the given ranges. -/
  | oneOf (negated : Bool) (ranges : List (Char × Char))
  /-- One of several branches. -/
  | alternates (branches : List (List Token))

/-- The bytes of a text. -/
def bytes (text : String) : List UInt8 :=
  text.toList.flatMap String.utf8EncodeChar

/-- The ranges of bytes that a range of characters stands for. Only the last byte of its first
character and the first byte of its last one are joined to a range. -/
def byteRanges (range : Char × Char) : List (UInt8 × UInt8) :=
  let single (b : UInt8) : UInt8 × UInt8 := (b, b)
  let first := String.utf8EncodeChar range.1
  let last := String.utf8EncodeChar range.2
  if range.1 = range.2 then first.map single
  else
    match first.getLast?, last.head? with
    | some low, some high =>
      first.dropLast.map single ++ (low, high) :: (last.drop 1).map single
    | _, _ => []

mutual

/-- Whether a token stands for the empty text and nothing else: a group without a branch. -/
def Token.isVoid : Token → Bool
  | .alternates branches => areVoid branches
  | _ => false

/-- Whether every token of a branch stands for the empty text. -/
def isVoidBranch : List Token → Bool
  | [] => true
  | token :: tokens => token.isVoid && isVoidBranch tokens

/-- Whether every branch of a group stands for the empty text. -/
def areVoid : List (List Token) → Bool
  | [] => true
  | branch :: branches => isVoidBranch branch && areVoid branches

end

/-- Why a pattern cannot be read. -/
inductive Fault where
  | unclosedClass
  | invalidRange (first last : Char)
  | unopenedGroup
  | unclosedGroup
  | danglingEscape
deriving DecidableEq, Repr

namespace Fault

/-- The part of the message behind the pattern. -/
def message : Fault → String
  | unclosedClass => "unclosed character class; missing ']'"
  | invalidRange first last => s!"invalid range; '{first}' > '{last}'"
  | unopenedGroup =>
    "unopened alternate group; missing '\x7b' (maybe escape '\x7d' with '[\x7d]'?)"
  | unclosedGroup =>
    "unclosed alternate group; missing '\x7d' (maybe escape '\x7b' with '[\x7b]'?)"
  | danglingEscape => "dangling '\\'"

end Fault

/-- The inside of a character class whose opening has just been passed. The ranges come last first;
`first` holds until something was read, and `pending` says that a dash waits for the end of its
range. -/
def classBody (first pending : Bool) (ranges : List (Char × Char)) :
    List Char → Except Fault (List (Char × Char) × List Char)
  | [] => .error .unclosedClass
  | c :: rest =>
    if c = ']' ∧ !first then
      .ok ((if pending then ('-', '-') :: ranges else ranges).reverse, rest)
    else if c = '-' ∧ !first ∧ !pending then classBody false true ranges rest
    else
      match pending, ranges with
      | true, (low, _) :: ranges =>
        if c < low then .error (.invalidRange low c)
        else classBody false false ((low, c) :: ranges) rest
      | _, _ => classBody false false ((c, c) :: ranges) rest

/-- A class behind its opening bracket. -/
def readClass (cs : List Char) : Except Fault (Token × List Char) := do
  let negated := cs.head? = some '!' ∨ cs.head? = some '^'
  let (ranges, rest) ← classBody true false [] (if negated then cs.drop 1 else cs)
  return (.oneOf negated ranges, rest)

theorem length_le_of_classBody {first pending : Bool} {ranges found : List (Char × Char)}
    {cs rest : List Char} (h : classBody first pending ranges cs = .ok (found, rest)) :
    rest.length ≤ cs.length := by
  induction cs generalizing first pending ranges with
  | nil => simp [classBody] at h
  | cons c cs ih =>
    simp only [classBody] at h
    split at h
    · grind
    · split at h
      · have := ih h
        grind
      · split at h
        · split at h
          · simp at h
          · have := ih h
            grind
        · have := ih h
          grind

theorem length_le_of_readClass {cs rest : List Char} {token : Token}
    (h : readClass cs = .ok (token, rest)) : rest.length ≤ cs.length := by
  simp only [readClass, bind, Except.bind, pure, Except.pure] at h
  split at h
  · simp at h
  · rename_i found hbody
    have hlen : found.2.length ≤ _ := length_le_of_classBody hbody
    have hrest : found.2 = rest := by simp_all
    subst hrest
    split at hlen <;> grind

/-- A group that is being read: the branch around it and its own finished branches, both last
first. -/
structure Group where
  outer : List Token
  branches : List (List Token)

/-- What has been read so far: the tokens of the current branch, last first, the groups around it,
innermost first, and the previous character. -/
structure State where
  branch : List Token
  groups : List Group
  previous : Option Char

namespace State

/-- The state before anything is read. -/
def initial : State :=
  ⟨[], [], none⟩

/-- Add a token to the current branch. -/
def push (state : State) (token : Token) (previous : Char) : State :=
  { state with branch := token :: state.branch, previous := some previous }

/-- Add two stars that have no meaning together. -/
def pushStars (state : State) : State :=
  (state.push .anyBytes '*').push .anyBytes '*'

/-- Put a doubled star in place of the slash in front of it, unless what stands there already covers
any depth. -/
def absorb (state : State) (token : Token) (previous : Char) : State :=
  match state.branch with
  | .leading :: _ | .trailing :: _ => { state with previous := some previous }
  | _ :: branch => { state with branch := token :: branch, previous := some previous }
  | [] => state.push token previous

/-- Open a group. -/
def openGroup (state : State) : State :=
  ⟨[], ⟨state.branch, []⟩ :: state.groups, some '\x7b'⟩

/-- Begin the next branch of the innermost group. A comma outside groups stands for itself. -/
def nextBranch (state : State) : State :=
  match state.groups with
  | [] => state.push (.literal ',') ','
  | group :: groups =>
    ⟨[], { group with branches := state.branch.reverse :: group.branches } :: groups, some ','⟩

/-- Close the innermost group. -/
def closeGroup (state : State) : Except Fault State :=
  match state.groups with
  | [] => .error .unopenedGroup
  | group :: groups =>
    let branches := (state.branch.reverse :: group.branches).reverse
    .ok ⟨.alternates branches :: group.outer, groups, some '\x7d'⟩

/-- Whether a doubled star behind this state may stand for whole directories. -/
def atComponentStart (state : State) : Bool :=
  state.previous == some '/' ||
    (!state.groups.isEmpty && (state.previous == some ',' || state.previous == some '\x7b'))

/-- Read a doubled star in front of `rest`; a slash behind it may belong to it. -/
def pushDoubleStar (state : State) (rest : List Char) : State × List Char :=
  if state.branch.isEmpty then
    match rest with
    | [] => (state.push .leading '*', [])
    | c :: more => if c = '/' then (state.push .leading '/', more) else (state.pushStars, rest)
  else if !state.atComponentStart then (state.pushStars, rest)
  else
    match rest with
    | [] => (state.absorb .trailing '*', [])
    | c :: more =>
      if !state.groups.isEmpty ∧ (c = ',' ∨ c = '\x7d') then (state.absorb .trailing '*', rest)
      else if c = '/' then (state.absorb .between '/', more)
      else (state.pushStars, rest)

theorem length_pushDoubleStar_le (state : State) (rest : List Char) :
    (state.pushDoubleStar rest).2.length ≤ rest.length := by
  simp only [pushDoubleStar]
  split
  · split
    · simp
    · split <;> simp
  · split
    · simp
    · split
      · simp
      · split
        · simp
        · split <;> simp

end State

/-- Read a pattern from a state on. -/
def readTokens (state : State) (cs : List Char) : Except Fault State :=
  match cs with
  | [] => .ok state
  | c :: rest =>
    if c = '?' then readTokens (state.push .anyByte c) rest
    else if c = '*' then
      if rest.head? = some '*' then
        have := State.length_pushDoubleStar_le state (rest.drop 1)
        readTokens (state.pushDoubleStar (rest.drop 1)).1 (state.pushDoubleStar (rest.drop 1)).2
      else readTokens (state.push .anyBytes c) rest
    else if c = '[' then
      match h : readClass rest with
      | .error fault => .error fault
      | .ok (token, rest) =>
        have := length_le_of_readClass h
        readTokens (state.push token ']') rest
    else if c = '\x7b' then readTokens state.openGroup rest
    else if c = '\x7d' then
      match state.closeGroup with
      | .error fault => .error fault
      | .ok state => readTokens state rest
    else if c = ',' then readTokens state.nextBranch rest
    else if c = '\\' then
      match rest with
      | [] => .error .danglingEscape
      | escaped :: rest => readTokens (state.push (.literal escaped) escaped) rest
    else readTokens (state.push (.literal c) c) rest
termination_by cs.length
decreasing_by all_goals simp_all; try omega

/-- The tokens of a pattern. A group left open is noticed at the end. -/
def readPattern (pattern : String) : Except Fault (List Token) := do
  let state ← readTokens .initial pattern.toList
  if state.groups.isEmpty then return state.branch.reverse else throw .unclosedGroup

end CachedCalls.Glob
