/-
# Identifiers found by the scan for words

A name is looked for among the identifiers that stand as whole words in a text.
The scan reads forward with one bit of memory, whether the last character
belonged to a word, and finds exactly the words that are identifiers. An
identifier that is written into a text is therefore found there again whatever
the text around it is, provided the two characters next to it belong to no word.
So the names that generated text uses can be found in any text that contains it.
-/

import CachedCalls.SymbolTable
import CachedCalls.Wrapper
import Mathlib.Data.List.TakeWhile

namespace CachedCalls

namespace Text

/-! ## Identifiers -/

theorem isIdentifierChar_of_isIdentifierStart {c : Char} (h : isIdentifierStart c = true) :
    isIdentifierChar c = true := by
  rw [isIdentifierStart, Bool.or_eq_true] at h
  rw [isIdentifierChar, Char.isAlphanum, Bool.or_eq_true, Bool.or_eq_true]
  rcases h with halpha | hunderscore
  · exact Or.inl (Or.inl halpha)
  · exact Or.inr hunderscore

theorem isIdentifier_iff {text : String} :
    isIdentifier text = true ↔
      ∃ c cs, text.toList = c :: cs ∧ isIdentifierStart c = true ∧
        ∀ d ∈ cs, isIdentifierChar d = true := by
  unfold isIdentifier
  cases htext : text.toList with
  | nil => simp
  | cons c cs =>
      rw [Bool.and_eq_true, List.all_eq_true]
      constructor
      · rintro ⟨hstart, hchars⟩
        exact ⟨c, cs, rfl, hstart, hchars⟩
      · rintro ⟨_, _, heq, hstart, hchars⟩
        cases heq
        exact ⟨hstart, hchars⟩

theorem ne_empty_of_isIdentifier {text : String} (h : isIdentifier text = true) : text ≠ "" := by
  rintro rfl
  cases h

theorem isIdentifierChar_of_mem {text : String} (h : isIdentifier text = true) :
    ∀ c ∈ text.toList, isIdentifierChar c = true := by
  obtain ⟨c, cs, htext, hstart, hchars⟩ := isIdentifier_iff.mp h
  rw [htext, List.forall_mem_cons]
  exact ⟨isIdentifierChar_of_isIdentifierStart hstart, hchars⟩

/-- An identifier can be continued with identifier characters. -/
theorem isIdentifier_append {text suffix : String} (h : isIdentifier text = true)
    (hsuffix : ∀ c ∈ suffix.toList, isIdentifierChar c = true) :
    isIdentifier (text ++ suffix) = true := by
  obtain ⟨c, cs, htext, hstart, hchars⟩ := isIdentifier_iff.mp h
  refine isIdentifier_iff.mpr ⟨c, cs ++ suffix.toList, by simp [htext], hstart, ?_⟩
  rw [List.forall_mem_append]
  exact ⟨hchars, hsuffix⟩

/-! ## Words in a text -/

/-- A word of a text: word characters that stand together, with no further word
character in front of them or behind them. -/
def HasWord (text word : String) : Prop :=
  word ≠ "" ∧ (∀ c ∈ word.toList, isWordChar c = true) ∧
    ∃ before after, text.toList = before ++ (word.toList ++ after) ∧
      (∀ c ∈ before.getLast?, isWordChar c = false) ∧ ∀ c ∈ after.head?, isWordChar c = false

theorem continuesWord_eq_false_iff {cs : List Char} :
    continuesWord cs = false ↔ ∀ c ∈ cs.head?, isWordChar c = false := by
  cases cs with
  | nil => simp [continuesWord]
  | cons c cs => simp [continuesWord]

theorem isIdentifierChar_eq_false {c : Char} (h : isWordChar c = false) :
    isIdentifierChar c = false := by
  rw [← Bool.not_eq_true] at h ⊢
  exact fun hchar => h (isWordChar_of_isIdentifierChar hchar)

/-- Identifier characters up to where no word continues are cut off as a whole. -/
theorem takeWhile_dropWhile_append {run after : List Char}
    (hrun : ∀ c ∈ run, isIdentifierChar c = true) (hafter : continuesWord after = false) :
    (run ++ after).takeWhile isIdentifierChar = run ∧
      (run ++ after).dropWhile isIdentifierChar = after := by
  rw [List.takeWhile_append_of_pos hrun, List.dropWhile_append_of_pos hrun]
  cases after with
  | nil => simp
  | cons c rest =>
      have hc : isIdentifierChar c = false := isIdentifierChar_eq_false hafter
      simp [hc]

/-- One step of the scan finds the identifier that begins here, provided that a
word begins here and ends with it. -/
theorem mem_identifiersFrom_cons {inWord : Bool} {c : Char} {cs run : List Char} :
    run ∈ identifiersFrom inWord (c :: cs) ↔
      (inWord = false ∧ isIdentifier (String.ofList run) = true ∧
        ∃ after, c :: cs = run ++ after ∧ continuesWord after = false) ∨
      run ∈ identifiersFrom (isWordChar c) cs := by
  have hhere : (inWord = false ∧ isIdentifier (String.ofList run) = true ∧
      ∃ after, c :: cs = run ++ after ∧ continuesWord after = false) ↔
      (!inWord && isIdentifierStart c && !continuesWord (cs.dropWhile isIdentifierChar)) = true ∧
        run = c :: cs.takeWhile isIdentifierChar := by
    simp only [Bool.and_eq_true, Bool.not_eq_true', isIdentifier_iff, String.toList_ofList]
    constructor
    · rintro ⟨hword, ⟨first, rest, rfl, hstart, hchars⟩, after, happ, hafter⟩
      rw [List.cons_append, List.cons.injEq] at happ
      obtain ⟨rfl, rfl⟩ := happ
      obtain ⟨htake, hdrop⟩ := takeWhile_dropWhile_append hchars hafter
      rw [htake, hdrop]
      exact ⟨⟨⟨hword, hstart⟩, hafter⟩, rfl⟩
    · rintro ⟨⟨⟨hword, hstart⟩, hafter⟩, rfl⟩
      exact ⟨hword, ⟨c, _, rfl, hstart, fun _ => List.mem_takeWhile_imp⟩,
        cs.dropWhile isIdentifierChar, by simp, hafter⟩
  rw [hhere, identifiersFrom]
  split
  · next hfound => rw [List.mem_cons, and_iff_right hfound]
  · next hfound => simp [hfound]

/-- What the scan finds, said of the characters around it. `behind` is what has
been read, its last character first. -/
theorem mem_identifiersFrom_iff {cs run : List Char} (behind : List Char) :
    run ∈ identifiersFrom (continuesWord behind) cs ↔
      isIdentifier (String.ofList run) = true ∧
        ∃ before after, cs = before ++ (run ++ after) ∧
          continuesWord (before.reverse ++ behind) = false ∧ continuesWord after = false := by
  induction cs generalizing behind with
  | nil =>
      rw [identifiersFrom]
      constructor
      · intro h
        cases h
      · rintro ⟨hrun, before, after, happ, -, -⟩
        obtain ⟨-, happ⟩ := List.append_eq_nil_iff.mp happ.symm
        obtain ⟨rfl, -⟩ := List.append_eq_nil_iff.mp happ
        exact absurd rfl (ne_empty_of_isIdentifier hrun)
  | cons c cs ih =>
      have hlater := ih (c :: behind)
      rw [continuesWord] at hlater
      rw [mem_identifiersFrom_cons, hlater]
      constructor
      · rintro (⟨hword, hrun, after, happ, hafter⟩ | ⟨hrun, before, after, rfl, hbefore, hafter⟩)
        · exact ⟨hrun, [], after, happ, hword, hafter⟩
        · exact ⟨hrun, c :: before, after, rfl, by simpa using hbefore, hafter⟩
      · rintro ⟨hrun, before, after, happ, hbefore, hafter⟩
        cases before with
        | nil => exact Or.inl ⟨hbefore, hrun, after, happ, hafter⟩
        | cons b before =>
            obtain ⟨rfl, rfl⟩ := List.cons.inj happ
            exact Or.inr ⟨hrun, before, after, rfl, by simpa using hbefore, hafter⟩

theorem mem_identifiers_iff_toList_mem {text word : String} :
    word ∈ identifiers text ↔ word.toList ∈ identifiersFrom false text.toList := by
  rw [identifiers, List.mem_map]
  constructor
  · rintro ⟨run, hrun, rfl⟩
    rwa [String.toList_ofList]
  · intro h
    exact ⟨_, h, String.ofList_toList⟩

/-- The scan finds the words of a text that are identifiers. -/
theorem mem_identifiers_iff {text word : String} :
    word ∈ identifiers text ↔ isIdentifier word = true ∧ HasWord text word := by
  rw [mem_identifiers_iff_toList_mem]
  refine (mem_identifiersFrom_iff []).trans ?_
  rw [String.ofList_toList]
  simp only [List.append_nil, continuesWord_eq_false_iff, List.head?_reverse]
  constructor
  · rintro ⟨hword, hplace⟩
    refine ⟨hword, ne_empty_of_isIdentifier hword, fun c hc => ?_, hplace⟩
    exact isWordChar_of_isIdentifierChar (isIdentifierChar_of_mem hword c hc)
  · rintro ⟨hword, -, -, hplace⟩
    exact ⟨hword, hplace⟩

-- Of a word that holds other letters or begins with a digit no part is found.
example : identifiers "x2 2x été_x a-b" = ["x2", "a", "b"] := by decide

/-- An identifier between two characters that belong to no word is found. -/
theorem mem_identifiers_of_append {text word : String} {before after : Char}
    {front rest : List Char} (h : isIdentifier word = true) (hbefore : isWordChar before = false)
    (hafter : isWordChar after = false)
    (htext : text.toList = front ++ before :: (word.toList ++ after :: rest)) :
    word ∈ identifiers text := by
  refine mem_identifiers_iff.mpr ⟨h, ne_empty_of_isIdentifier h,
    fun c hc => isWordChar_of_isIdentifierChar (isIdentifierChar_of_mem h c hc),
    front ++ [before], after :: rest, by simp [htext], ?_, ?_⟩
  · simpa using hbefore
  · simpa using hafter

end Text

/-- A wrapped function lives on under an identifier. -/
theorem isIdentifier_mangledName {name : String} (h : Text.isIdentifier name = true) :
    Text.isIdentifier (mangledName name) = true := by
  have hsuffix : mangleSuffix.toList.all Text.isIdentifierChar = true := rfl
  exact Text.isIdentifier_append h (List.all_eq_true.mp hsuffix)

namespace SymbolTable

theorem contains_insertAll (table : SymbolTable) (names : List String) (name : String) :
    (table.insertAll names).contains name = true ↔
      name ∈ names ∨ table.contains name = true := by
  induction names generalizing table with
  | nil => simp [insertAll]
  | cons first names ih =>
      have hinsert : (table.insert first).contains name = true ↔
          name = first ∨ table.contains name = true := by
        rw [insert, contains, Std.TreeSet.contains_insert, Bool.or_eq_true, beq_iff_eq,
          Std.LawfulEqCmp.compare_eq_iff_eq, eq_comm, contains]
      have hstep : table.insertAll (first :: names) = (table.insert first).insertAll names := rfl
      rw [hstep, ih, hinsert, List.mem_cons, or_left_comm, or_assoc]

/-- The names in use in a text are the identifiers that stand in it as whole words. -/
theorem contains_scan (text name : String) :
    (scan text).contains name = true ↔ name ∈ Text.identifiers text := by
  rw [scan, contains_insertAll]
  simp [contains, empty]

end SymbolTable

end CachedCalls
