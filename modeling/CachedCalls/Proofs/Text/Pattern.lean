/-
# Matches of the identifier pattern

The scan for names is the search for all matches of `\b[A-Za-z_][A-Za-z0-9_]*\b`,
where `\b` asks for Unicode and the two classes are ASCII. A pattern is given
here by the places at which a match may end, the preferred one in front: a
repetition takes as much as it can and gives back one character at a time. The
search reports the preferred match at the leftmost place that has one and goes
on behind it. Giving back never helps the identifier pattern, because inside a
run of identifier characters no word ends, so one forward pass over the text
does the whole search.
-/

import CachedCalls.Proofs.Text.Word

namespace CachedCalls

namespace Text

/-! ## Patterns -/

/-- A place in a text: what has been read, its last character first, and what is
still to be read. -/
structure Cursor where
  behind : List Char
  ahead : List Char

/-- A word begins or ends here: of the two characters next to this place exactly
one belongs to a word. -/
def Cursor.atBoundary (cursor : Cursor) : Bool :=
  continuesWord cursor.behind != continuesWord cursor.ahead

/-- Patterns for pieces of text. -/
inductive Pattern where
  /-- The place where a word begins or ends. -/
  | boundary
  /-- One of the admitted characters. -/
  | one (admits : Char → Bool)
  /-- As many admitted characters as possible, or none. -/
  | many (admits : Char → Bool)
  /-- One pattern and behind it another. -/
  | seq (first second : Pattern)

namespace Pattern

/-- Where admitted characters may stop to be taken, the longest run first. -/
def endsOfMany (admits : Char → Bool) (behind : List Char) : List Char → List Cursor
  | [] => [⟨behind, []⟩]
  | c :: ahead =>
    if admits c then endsOfMany admits (c :: behind) ahead ++ [⟨behind, c :: ahead⟩]
    else [⟨behind, c :: ahead⟩]

/-- Where the matches that begin here end, the preferred one first. -/
def ends : Pattern → Cursor → List Cursor
  | boundary, cursor => if cursor.atBoundary then [cursor] else []
  | one _, ⟨_, []⟩ => []
  | one admits, ⟨behind, c :: ahead⟩ => if admits c then [⟨c :: behind, ahead⟩] else []
  | many admits, ⟨behind, ahead⟩ => endsOfMany admits behind ahead
  | seq first second, cursor => (first.ends cursor).flatMap second.ends

/-- The texts a search reports from here on. A place without a match is passed
by, and behind a match the search goes on where the match has ended. -/
inductive Finds (pattern : Pattern) : Cursor → List (List Char) → Prop where
  | done {behind : List Char} (hnone : pattern.ends ⟨behind, []⟩ = []) :
      Finds pattern ⟨behind, []⟩ []
  | skip {behind ahead : List Char} {c : Char} {runs : List (List Char)}
      (hnone : pattern.ends ⟨behind, c :: ahead⟩ = [])
      (hlater : Finds pattern ⟨c :: behind, ahead⟩ runs) :
      Finds pattern ⟨behind, c :: ahead⟩ runs
  | found {cursor stop : Cursor} {run : List Char} {runs : List (List Char)}
      (hfirst : (pattern.ends cursor).head? = some stop)
      (htaken : cursor.ahead = run ++ stop.ahead) (hrun : run ≠ [])
      (hlater : Finds pattern stop runs) : Finds pattern cursor (run :: runs)

/-- An identifier that stands as a whole word: `\b[A-Za-z_][A-Za-z0-9_]*\b`. -/
def identifier : Pattern :=
  .seq .boundary (.seq (.one isIdentifierStart) (.seq (.many isIdentifierChar) .boundary))

/-! ## Where an identifier ends -/

theorem ends_seq_boundary (rest : Pattern) (cursor : Cursor) :
    (seq boundary rest).ends cursor = if cursor.atBoundary then rest.ends cursor else [] := by
  rw [ends, ends]
  split
  · exact List.flatMap_singleton ..
  · rfl

theorem ends_seq_one_cons (admits : Char → Bool) (rest : Pattern) (behind : List Char) (c : Char)
    (ahead : List Char) :
    (seq (one admits) rest).ends ⟨behind, c :: ahead⟩ =
      if admits c then rest.ends ⟨c :: behind, ahead⟩ else [] := by
  rw [ends, ends]
  split
  · exact List.flatMap_singleton ..
  · rfl

/-- A word that has begun goes on through word characters. -/
theorem continuesWord_reverse_append {run behind : List Char}
    (hrun : ∀ c ∈ run, isWordChar c = true) (hbehind : continuesWord behind = true) :
    continuesWord (run.reverse ++ behind) = true := by
  cases hreverse : run.reverse with
  | nil => exact hbehind
  | cons last rest => exact hrun last (List.mem_reverse.mp (hreverse ▸ List.mem_cons_self))

/-- Of all places at which identifier characters may stop to be taken, only the
last can be the end of a word: at the others the word goes on. -/
theorem flatMap_ends_endsOfMany {behind : List Char} (hbehind : continuesWord behind = true)
    (ahead : List Char) :
    (endsOfMany isIdentifierChar behind ahead).flatMap boundary.ends =
      boundary.ends ⟨(ahead.takeWhile isIdentifierChar).reverse ++ behind,
        ahead.dropWhile isIdentifierChar⟩ := by
  induction ahead generalizing behind with
  | nil => simp [endsOfMany]
  | cons c ahead ih =>
      rw [endsOfMany]
      cases hc : isIdentifierChar c with
      | true =>
          have hahead : continuesWord (c :: ahead) = true := isWordChar_of_isIdentifierChar hc
          have hword : continuesWord (c :: behind) = true := hahead
          have hinside : boundary.ends ⟨behind, c :: ahead⟩ = [] := by
            simp [ends, Cursor.atBoundary, hbehind, hahead]
          rw [if_pos rfl, List.flatMap_append, ih hword, List.flatMap_singleton, hinside,
            List.append_nil, List.takeWhile_cons_of_pos hc, List.dropWhile_cons_of_pos hc,
            List.reverse_cons, List.append_assoc, List.singleton_append]
      | false =>
          rw [if_neg Bool.false_ne_true, List.flatMap_singleton,
            List.takeWhile_cons_of_neg (by simp [hc]), List.dropWhile_cons_of_neg (by simp [hc])]
          rfl

theorem ends_identifier_nil (behind : List Char) : identifier.ends ⟨behind, []⟩ = [] := by
  rw [identifier, ends_seq_boundary, ite_eq_right_iff]
  exact fun _ => rfl

/-- The identifier pattern matches in one way at most, and where it does is
decided by the condition of the scan. -/
theorem ends_identifier_cons (behind : List Char) (c : Char) (cs : List Char) :
    identifier.ends ⟨behind, c :: cs⟩ =
      if !continuesWord behind && isIdentifierStart c &&
          !continuesWord (cs.dropWhile isIdentifierChar) then
        [⟨(cs.takeWhile isIdentifierChar).reverse ++ c :: behind,
          cs.dropWhile isIdentifierChar⟩]
      else [] := by
  rw [identifier, ends_seq_boundary, ends_seq_one_cons]
  cases hstart : isIdentifierStart c with
  | false => simp
  | true =>
      have hahead : continuesWord (c :: cs) = true :=
        isWordChar_of_isIdentifierChar (isIdentifierChar_of_isIdentifierStart hstart)
      have hbehind : continuesWord (c :: behind) = true := hahead
      have hrun : continuesWord ((cs.takeWhile isIdentifierChar).reverse ++ c :: behind) = true :=
        continuesWord_reverse_append
          (fun d hd => isWordChar_of_isIdentifierChar (List.mem_takeWhile_imp hd)) hbehind
      have hfirst : Cursor.atBoundary ⟨behind, c :: cs⟩ = !continuesWord behind := by
        rw [Cursor.atBoundary, hahead, Bool.bne_true]
      have hlast : Cursor.atBoundary ⟨(cs.takeWhile isIdentifierChar).reverse ++ c :: behind,
          cs.dropWhile isIdentifierChar⟩ = !continuesWord (cs.dropWhile isIdentifierChar) := by
        rw [Cursor.atBoundary, hrun, Bool.true_bne]
      rw [if_pos rfl, ends, ends, flatMap_ends_endsOfMany hbehind, ends, hfirst, hlast,
        Bool.and_true]
      cases continuesWord behind with
      | true => rfl
      | false => rfl

/-! ## The scan as a search -/

theorem identifiersFrom_append {run : List Char} (hrun : ∀ c ∈ run, isWordChar c = true)
    (rest : List Char) : identifiersFrom true (run ++ rest) = identifiersFrom true rest := by
  induction run with
  | nil => rfl
  | cons c run ih =>
      rw [List.forall_mem_cons] at hrun
      rw [List.cons_append, identifiersFrom, hrun.1, Bool.not_true, Bool.false_and, Bool.false_and,
        if_neg Bool.false_ne_true]
      exact ih hrun.2

/-- Where there is a match the scan reports it, and finds nothing more before the
match has ended. -/
theorem identifiersFrom_of_head?_ends {behind ahead : List Char} {stop : Cursor}
    (h : (identifier.ends ⟨behind, ahead⟩).head? = some stop) :
    ∃ run, run ≠ [] ∧ ahead = run ++ stop.ahead ∧
      identifiersFrom (continuesWord behind) ahead =
        run :: identifiersFrom (continuesWord stop.behind) stop.ahead := by
  cases ahead with
  | nil =>
      rw [ends_identifier_nil] at h
      cases h
  | cons c cs =>
      rw [ends_identifier_cons] at h
      split at h
      · next hfound =>
        cases h
        have hchars : ∀ d ∈ cs.takeWhile isIdentifierChar, isWordChar d = true :=
          fun d hd => isWordChar_of_isIdentifierChar (List.mem_takeWhile_imp hd)
        have hstart : isIdentifierStart c = true := by
          simp only [Bool.and_eq_true] at hfound
          exact hfound.1.2
        have hc : isWordChar c = true :=
          isWordChar_of_isIdentifierChar (isIdentifierChar_of_isIdentifierStart hstart)
        have hbehind : continuesWord (c :: behind) = true := hc
        have hlater : identifiersFrom (isWordChar c) cs =
            identifiersFrom true (cs.dropWhile isIdentifierChar) := by
          rw [← identifiersFrom_append hchars, List.takeWhile_append_dropWhile, hc]
        refine ⟨c :: cs.takeWhile isIdentifierChar, List.cons_ne_nil _ _, ?_, ?_⟩
        · rw [List.cons_append, List.takeWhile_append_dropWhile]
        · rw [identifiersFrom, if_pos hfound, hlater, continuesWord_reverse_append hchars hbehind]
      · cases h

theorem identifiersFrom_of_ends_eq_nil {behind ahead : List Char} {c : Char}
    (h : identifier.ends ⟨behind, c :: ahead⟩ = []) :
    identifiersFrom (continuesWord behind) (c :: ahead) =
      identifiersFrom (continuesWord (c :: behind)) ahead := by
  rw [ends_identifier_cons, ite_eq_right_iff] at h
  rw [identifiersFrom, if_neg fun hfound => List.cons_ne_nil _ _ (h hfound)]
  rfl

/-- What the search reports, the scan finds. -/
theorem Finds.eq_identifiersFrom {cursor : Cursor} {runs : List (List Char)}
    (h : identifier.Finds cursor runs) :
    runs = identifiersFrom (continuesWord cursor.behind) cursor.ahead := by
  induction h with
  | done _ => rfl
  | skip hnone _ ih => rw [identifiersFrom_of_ends_eq_nil hnone, ih]
  | found hfirst htaken _ _ ih =>
      obtain ⟨run, -, htaken', hscan⟩ := identifiersFrom_of_head?_ends hfirst
      rw [hscan, ← ih, List.append_cancel_right (htaken.symm.trans htaken')]

/-- The search reports what the scan finds. A match is never empty, so the text
that is left gets shorter. -/
theorem finds_identifiersFrom (behind ahead : List Char) :
    identifier.Finds ⟨behind, ahead⟩ (identifiersFrom (continuesWord behind) ahead) := by
  induction hlength : ahead.length using Nat.strong_induction_on generalizing behind ahead with
  | _ length ih =>
  subst hlength
  cases hends : (identifier.ends ⟨behind, ahead⟩).head? with
  | some stop =>
      obtain ⟨run, hrun, htaken, hscan⟩ := identifiersFrom_of_head?_ends hends
      have hshorter : stop.ahead.length < ahead.length := by
        have hpos := List.length_pos_iff.mpr hrun
        rw [htaken, List.length_append]
        omega
      rw [hscan]
      exact .found hends htaken hrun (ih _ hshorter stop.behind stop.ahead rfl)
  | none =>
      rw [List.head?_eq_none_iff] at hends
      cases ahead with
      | nil => exact .done hends
      | cons c cs =>
          rw [identifiersFrom_of_ends_eq_nil hends]
          exact .skip hends (ih _ (Nat.lt_succ_self _) (c :: behind) cs rfl)

end Pattern

end Text

/-- The table of a text holds the matches of the identifier pattern, which are
the words of the text that are identifiers. -/
theorem SymbolTable.contains_scan_iff_hasWord (text : String) :
    ∃ runs,
      (∀ others, Text.Pattern.identifier.Finds ⟨[], text.toList⟩ others ↔ others = runs) ∧
      ∀ word,
        ((scan text).contains word = true ↔ word.toList ∈ runs) ∧
        ((scan text).contains word = true ↔
          Text.isIdentifier word = true ∧ Text.HasWord text word) := by
  refine ⟨Text.identifiersFrom false text.toList, fun others => ⟨?_, ?_⟩, fun word => ⟨?_, ?_⟩⟩
  · exact Text.Pattern.Finds.eq_identifiersFrom
  · rintro rfl
    exact Text.Pattern.finds_identifiersFrom [] text.toList
  · rw [contains_scan, Text.mem_identifiers_iff_toList_mem]
  · rw [contains_scan, Text.mem_identifiers_iff]

end CachedCalls
