/-
# The language of a pattern

A token describes the byte sequences it can take, a pattern the products of what its
tokens take in turn. Matching never looks at these sequences: it moves marks over the
path, all at once. Each move is right for the language it stands for, which says of
every position that it is reached exactly if the bytes between it and some position
that was reached before are in the language. Moves of this kind can be put behind and
beside one another as languages can be multiplied and added, and so a path is matched
exactly if its bytes are in the language of the pattern.
-/

import CachedCalls.Glob
import Mathlib.Computability.Language

namespace CachedCalls.Glob

/-! ## What tokens take -/

/-- The sequences of one accepted byte. -/
def oneByte (accepts : UInt8 → Bool) : Language UInt8 :=
  {taken | ∃ b, accepts b = true ∧ taken = [b]}

/-- A slash. -/
def slash : Language UInt8 :=
  oneByte (· == 0x2F)

/-- Any directories, each with the slash behind it, or none. -/
def directories : Language UInt8 :=
  1 + ⊤ * slash

mutual

/-- What a token can take. -/
def Token.language : Token → Language UInt8
  | .literal c => {String.utf8EncodeChar c}
  | .anyByte => oneByte fun _ => true
  | .anyBytes => ⊤
  | .leading => directories
  | .trailing => slash * ⊤
  | .between => slash * directories
  | .oneOf negated ranges => oneByte fun b => inRanges ranges b != negated
  | .alternates branches => if areVoid branches then 1 else anyLanguage branches

/-- What tokens can take in turn. -/
def language : List Token → Language UInt8
  | [] => 1
  | token :: tokens => token.language * language tokens

/-- What one of several branches can take. Empty branches do not count. -/
def anyLanguage : List (List Token) → Language UInt8
  | [] => 0
  | branch :: branches =>
    if isVoidBranch branch then anyLanguage branches else language branch + anyLanguage branches

end

/-! ## Moving marks -/

variable {path front : List UInt8} {marks : Marks}

/-- The position behind a beginning of a path is marked. -/
def Reached (path : List UInt8) (marks : Marks) (front : List UInt8) : Prop :=
  front <+: path ∧ marks[front.length]? = some true

/-- A move of marks is right for a language: it reaches what lies behind a sequence of
the language from a position that was reached before. -/
structure Moves (path : List UInt8) (taken : Language UInt8) (move : Marks → Marks) : Prop where
  length_eq : ∀ {marks}, marks.length = path.length + 1 → (move marks).length = path.length + 1
  reached_iff : ∀ {marks}, marks.length = path.length + 1 → ∀ front,
    Reached path (move marks) front ↔
      front <+: path ∧ ∃ before, Reached path marks before ∧ ∃ part ∈ taken, before ++ part = front

theorem reached_startMarks : Reached path (startMarks path) front ↔ front = [] := by
  unfold Reached startMarks
  cases front with
  | nil => simp
  | cons b front => simp [List.getElem?_replicate]

namespace Moves

variable {first second : Language UInt8} {move next : Marks → Marks}

protected theorem id : Moves path 1 id where
  length_eq hmarks := hmarks
  reached_iff {marks} _ front := by
    constructor
    · exact fun h => ⟨h.1, front, h, [], Language.nil_mem_one, List.append_nil _⟩
    · rintro ⟨-, before, hbefore, part, hpart, rfl⟩
      obtain rfl := (Language.mem_one part).mp hpart
      rwa [List.append_nil, id]

protected theorem zero : Moves path 0 (List.map fun _ => false) where
  length_eq hmarks := by rw [List.length_map, hmarks]
  reached_iff {marks} _ front := by
    constructor
    · rintro ⟨-, hmark⟩
      simp [List.getElem?_replicate] at hmark
    · rintro ⟨-, -, -, part, hpart, -⟩
      exact absurd hpart (Language.notMem_zero part)

/-- One move behind another takes what they take one behind the other. -/
protected theorem mul (hmove : Moves path first move) (hnext : Moves path second next) :
    Moves path (first * second) fun marks => next (move marks) where
  length_eq hmarks := hnext.length_eq (hmove.length_eq hmarks)
  reached_iff {marks} hmarks front := by
    rw [hnext.reached_iff (hmove.length_eq hmarks)]
    refine and_congr_right fun hfront => ?_
    constructor
    · rintro ⟨middle, hmiddle, part, hpart, rfl⟩
      obtain ⟨-, before, hbefore, earlier, hearlier, rfl⟩ := (hmove.reached_iff hmarks _).mp hmiddle
      exact ⟨before, hbefore, earlier ++ part, Language.append_mem_mul hearlier hpart,
        (List.append_assoc _ _ _).symm⟩
    · rintro ⟨before, hbefore, part, hpart, rfl⟩
      obtain ⟨earlier, hearlier, later, hlater, rfl⟩ := Language.mem_mul.mp hpart
      rw [← List.append_assoc] at hfront
      refine ⟨before ++ earlier, (hmove.reached_iff hmarks _).mpr ⟨?_, before, hbefore, earlier,
        hearlier, rfl⟩, later, hlater, List.append_assoc _ _ _⟩
      exact (List.prefix_append _ _).trans hfront

/-- Two moves side by side take what either of them takes. -/
protected theorem add (hmove : Moves path first move) (hnext : Moves path second next) :
    Moves path (first + second) fun marks => either (move marks) (next marks) where
  length_eq hmarks := by
    rw [either, List.length_zipWith, hmove.length_eq hmarks, hnext.length_eq hmarks, Nat.min_self]
  reached_iff {marks} hmarks front := by
    have heither : Reached path (either (move marks) (next marks)) front ↔
        Reached path (move marks) front ∨ Reached path (next marks) front := by
      unfold Reached either
      rw [← and_or_left]
      refine and_congr_right fun hfront => ?_
      have hlength := hfront.length_le
      rw [List.getElem?_zipWith, List.getElem?_eq_getElem (by rw [hmove.length_eq hmarks]; omega),
        List.getElem?_eq_getElem (by rw [hnext.length_eq hmarks]; omega)]
      simp
    rw [heither, hmove.reached_iff hmarks, hnext.reached_iff hmarks, ← and_or_left, ← exists_or]
    refine and_congr_right fun _ => exists_congr fun before => ?_
    rw [← and_or_left, ← exists_or]
    refine and_congr_right fun _ => exists_congr fun part => ?_
    rw [Language.mem_add, or_and_right]

end Moves

theorem moves_step (accepts : UInt8 → Bool) : Moves path (oneByte accepts) (step accepts path) where
  length_eq hmarks := by simp [step, hmarks]
  reached_iff {marks} hmarks front := by
    refine and_congr_right fun hfront => ?_
    obtain rfl | ⟨before, b, rfl⟩ := List.eq_nil_or_concat front
    · constructor
      · rintro ⟨⟩
      · rintro ⟨before, -, part, ⟨b, -, rfl⟩, happend⟩
        exact absurd happend (by simp)
    · rw [List.concat_eq_append] at hfront ⊢
      have hbefore : before <+: path := (List.prefix_append _ _).trans hfront
      have hb : path[before.length]? = some b := by
        obtain ⟨rest, rfl⟩ := hfront
        simp
      have hmark : (step accepts path marks)[(before ++ [b]).length]? = some true ↔
          marks[before.length]? = some true ∧ accepts b = true := by
        rw [List.length_append, List.length_singleton, step, List.getElem?_cons_succ,
          List.getElem?_zipWith, hb]
        cases marks[before.length]? <;> simp
      rw [hmark]
      constructor
      · exact fun h => ⟨before, ⟨hbefore, h.1⟩, [b], ⟨b, h.2, rfl⟩, rfl⟩
      · rintro ⟨before', hreached, part, ⟨b', haccepts, rfl⟩, happend⟩
        obtain ⟨rfl, hsame⟩ := List.append_inj' happend rfl
        cases hsame
        exact ⟨hreached.2, haccepts⟩

theorem length_spreadFrom (reached : Bool) (marks : Marks) :
    (spreadFrom reached marks).length = marks.length := by
  induction marks generalizing reached with
  | nil => rfl
  | cons mark marks ih => simp [spreadFrom, ih]

theorem getElem?_spreadFrom (reached : Bool) (marks : Marks) (n : Nat) :
    (spreadFrom reached marks)[n]? = some true ↔
      n < marks.length ∧ (reached = true ∨ ∃ m ≤ n, marks[m]? = some true) := by
  induction marks generalizing reached n with
  | nil => simp [spreadFrom]
  | cons mark marks ih =>
      rw [spreadFrom]
      cases n with
      | zero => simp
      | succ n =>
          rw [List.getElem?_cons_succ, ih, List.length_cons, Nat.succ_lt_succ_iff, Bool.or_eq_true,
            or_assoc]
          refine and_congr_right fun _ => or_congr_right ?_
          constructor
          · rintro (hmark | ⟨m, hm, hmark⟩)
            · exact ⟨0, Nat.zero_le _, by simpa using hmark⟩
            · exact ⟨m + 1, Nat.succ_le_succ hm, by simpa using hmark⟩
          · rintro ⟨m, hm, hmark⟩
            cases m with
            | zero => exact .inl (by simpa using hmark)
            | succ m => exact .inr ⟨m, Nat.le_of_succ_le_succ hm, by simpa using hmark⟩

theorem moves_spread : Moves path ⊤ spread where
  length_eq hmarks := by rw [spread, length_spreadFrom, hmarks]
  reached_iff {marks} hmarks front := by
    refine and_congr_right fun hfront => ?_
    have hlength := hfront.length_le
    rw [spread, getElem?_spreadFrom, hmarks, and_iff_right (by omega)]
    constructor
    · rintro (hfalse | ⟨m, hm, hmark⟩)
      · cases hfalse
      · refine ⟨front.take m, ⟨(List.take_prefix _ _).trans hfront, ?_⟩, front.drop m, trivial,
          List.take_append_drop m front⟩
        rwa [List.length_take, Nat.min_eq_left hm]
    · rintro ⟨before, hreached, part, -, rfl⟩
      exact .inr ⟨before.length, by simp, hreached.2⟩

theorem moves_stepSlash : Moves path slash (stepSlash path) :=
  moves_step _

theorem moves_stepDirectories : Moves path directories (stepDirectories path) :=
  Moves.id.add (moves_spread.mul moves_stepSlash)

theorem moves_stepBytes (bytes : List UInt8) : Moves path {bytes} (stepBytes path bytes) := by
  induction bytes with
  | nil => exact Moves.id
  | cons b bytes ih =>
      have hsplit : ({b :: bytes} : Language UInt8) = oneByte (· == b) * {bytes} := by
        ext part
        rw [Language.mem_mul]
        constructor
        · rintro rfl
          exact ⟨[b], ⟨b, beq_self_eq_true b, rfl⟩, bytes, rfl, rfl⟩
        · rintro ⟨-, ⟨b', hb, rfl⟩, -, rfl, rfl⟩
          obtain rfl := eq_of_beq hb
          rfl
      rw [hsplit]
      exact (moves_step _).mul ih

mutual

theorem Token.moves_advance (path : List UInt8) :
    ∀ token : Token, Moves path token.language (token.advance path)
  | .literal _ => moves_stepBytes _
  | .anyByte | .oneOf _ _ => moves_step _
  | .anyBytes => moves_spread
  | .leading => moves_stepDirectories
  | .trailing => moves_stepSlash.mul moves_spread
  | .between => moves_stepSlash.mul moves_stepDirectories
  | .alternates branches => by
      have hbranches := moves_advanceAny path branches
      have hmove : (Token.alternates branches).advance path =
          if areVoid branches then id else advanceAny path branches := by
        funext marks
        rw [Token.advance]
        split_ifs <;> rfl
      rw [Token.language, hmove]
      split_ifs
      · exact Moves.id
      · exact hbranches

theorem moves_advanceAll (path : List UInt8) :
    ∀ tokens : List Token, Moves path (language tokens) (advanceAll path tokens)
  | [] => Moves.id
  | token :: tokens => (token.moves_advance path).mul (moves_advanceAll path tokens)

theorem moves_advanceAny (path : List UInt8) :
    ∀ branches : List (List Token), Moves path (anyLanguage branches) (advanceAny path branches)
  | [] => Moves.zero
  | branch :: branches => by
      have hbranch := moves_advanceAll path branch
      have hbranches := moves_advanceAny path branches
      have hmove : advanceAny path (branch :: branches) =
          if isVoidBranch branch then advanceAny path branches
          else fun marks => either (advanceAll path branch marks) (advanceAny path branches marks) := by
        funext marks
        rw [advanceAny]
        split_ifs <;> rfl
      rw [anyLanguage, hmove]
      split_ifs
      · exact hbranches
      · exact hbranch.add hbranches

end

/-! ## Matching -/

theorem getLast?_advanceAll_iff (path : List UInt8) (tokens : List Token) :
    (advanceAll path tokens (startMarks path)).getLast? = some true ↔ path ∈ language tokens := by
  have hmoves := moves_advanceAll path tokens
  have hstart : (startMarks path).length = path.length + 1 := by simp [startMarks]
  rw [List.getLast?_eq_getElem?, hmoves.length_eq hstart, Nat.add_sub_cancel]
  calc (advanceAll path tokens (startMarks path))[path.length]? = some true
      ↔ Reached path (advanceAll path tokens (startMarks path)) path :=
        (and_iff_right List.prefix_rfl).symm
    _ ↔ path ∈ language tokens := by
        rw [hmoves.reached_iff hstart, and_iff_right List.prefix_rfl]
        simp [reached_startMarks]

/-- A pattern matches a path exactly if the bytes of the path are in its language. A
doubled star alone matches every path, and a pattern for names of files only those that
end in one. -/
theorem isMatch_iff (glob : Glob) (path : String) :
    glob.isMatch path = true ↔
      ((method glob.tokens).needsFileName = true → namesFile path = true) ∧
        (glob.tokens = [.leading] ∨ bytes path ∈ language glob.tokens) := by
  unfold isMatch
  by_cases hname : (method glob.tokens).needsFileName = true → namesFile path = true
  · rw [if_neg (by simpa using hname), and_iff_right hname]
    split
    · simp [*]
    · next hne => rw [beq_iff_eq, getLast?_advanceAll_iff, or_iff_right hne]
  · rw [if_pos (by simpa using hname)]
    simp [hname]

end CachedCalls.Glob
