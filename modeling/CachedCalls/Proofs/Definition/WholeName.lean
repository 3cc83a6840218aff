/-
# Whole names

A rename replaces the text from the start of a declaration up to the recorded
end of its name. The check in front of it compares the bytes before that end with
the name, as many as the name has. Behind the name stands the parameter list, so
the identifier that the name belongs to ends there. What stands in front of the
name is not looked at.

So the identifier in the source ends with the name, and it may be longer. A name
that is the last part of another one passes the check, and its rename takes the
longer identifier out of the source.
-/

import CachedCalls.Proofs.Definition.LiveText
import Mathlib.Data.List.DropRight

namespace CachedCalls

open Text

namespace Text

/-- A word stands in a text as a whole identifier that ends at a byte offset: no character of an
identifier stands directly in front of it or behind it. Each of these is an ASCII character, so the
bytes next to the word are meant as well. -/
def IsWordEndingAt (source word : String) (stop : Nat) : Prop :=
  ∃ before after, source.toList = before ++ (word.toList ++ after) ∧
    byteLength before + size word = stop ∧
    (∀ c ∈ before.getLast?, isIdentifierChar c = false) ∧
    ∀ c ∈ after.head?, isIdentifierChar c = false

/-- Where a word stands is decided by the characters next to it. -/
theorem isWordEndingAt_iff {source word : String} {stop : Nat} {before after : List Char}
    (happ : source.toList = before ++ (word.toList ++ after))
    (hlen : byteLength before + size word = stop) :
    IsWordEndingAt source word stop ↔ (∀ c ∈ before.getLast?, isIdentifierChar c = false) ∧
      ∀ c ∈ after.head?, isIdentifierChar c = false := by
  constructor
  · rintro ⟨front, rest, happ', hlen', hfront, hrest⟩
    obtain ⟨rfl, hsame⟩ := eq_and_eq_of_byteLength_eq (happ'.symm.trans happ) (by omega)
    obtain rfl := List.append_cancel_left hsame
    exact ⟨hfront, hrest⟩
  · rintro ⟨hbefore, hafter⟩
    exact ⟨before, after, happ, hlen, hbefore, hafter⟩

theorem isIdentifierChar_of_isBlank {c : Char} (h : isBlank c = true) :
    isIdentifierChar c = false := by
  have hunderscore : c ≠ '_' := Lexical.Context.ne_of_isBlank h (by decide)
  simp [isIdentifierChar, Lexical.Context.isAlphanum_of_isBlank h, hunderscore]

/-- Characters of an identifier that stand in front of a place, and what stands in front of them. -/
theorem exists_surplus (before : List Char) :
    ∃ front surplus, before = front ++ surplus ∧ (∀ c ∈ surplus, isIdentifierChar c = true) ∧
      ∀ c ∈ front.getLast?, isIdentifierChar c = false := by
  refine ⟨before.rdropWhile isIdentifierChar, before.rtakeWhile isIdentifierChar,
    List.rdropWhile_append_rtakeWhile.symm, fun c => List.mem_rtakeWhile_imp, fun c hc => ?_⟩
  obtain ⟨hne, rfl⟩ := List.mem_getLast?_eq_getLast hc
  simpa using List.rdropWhile_last_not isIdentifierChar before hne

end Text

namespace Definition

/-- Behind the name of a definition whose parameter list is accepted stands a character that no
identifier has. -/
theorem exists_behind_name {d : Definition} {source text : String}
    (h : d.parameterList source = .ok text) :
    ∃ before c after, source.toList = before ++ c :: after ∧ byteLength before = d.nameEnd ∧
      isIdentifierChar c = false := by
  obtain ⟨raw, hraw, rfl, hopen, -⟩ := parameterList_eq_ok_iff.mp h
  obtain ⟨before, after, happ, hlen, -⟩ := Span.slice?_eq_some_iff.mp hraw
  obtain ⟨blanks, -, htrim⟩ := exists_trimEnd_append raw
  obtain ⟨c, rest, hcons, hc⟩ := exists_cons_of_head?_trimLeft hopen
  refine ⟨before, c, rest ++ blanks ++ after, ?_, hlen, ?_⟩
  · rw [happ, htrim, hcons]
    simp
  · rcases hc with hblank | rfl
    · exact isIdentifierChar_of_isBlank hblank
    · rfl

/-- The identifier of the source that ends where the name of a planned definition is recorded to end
consists of the name with possibly more in front of it. It is the name alone if and only if nothing
more stands there, which no check asks. -/
theorem exists_word_of_plan {d : Definition} {source adapter : String} {symbols : SymbolTable}
    {plan : Plan} (h : d.plan source symbols adapter = .ok plan) :
    d.nameEnd < size source ∧
      ∃ surplus : String, (∀ c ∈ surplus.toList, isIdentifierChar c = true) ∧
        IsWordEndingAt source (surplus ++ d.name) d.nameEnd ∧
        (IsWordEndingAt source d.name d.nameEnd ↔ surplus = "") := by
  obtain ⟨-, -, hname, -, parameterList, hlist, -⟩ := plan_eq_ok_iff.mp h
  obtain ⟨hroom, hslice⟩ := checkName_eq_ok_iff.mp hname
  obtain ⟨before, after, happ, -, hstop⟩ := Span.slice?_eq_some_iff.mp hslice
  obtain ⟨upto, c, rest, hbehind, hlen, hc⟩ := exists_behind_name hlist
  -- The slice of the name ends where that of the parameter list begins.
  have hmeet : upto ++ c :: rest = (before ++ d.name.toList) ++ after := by
    rw [← hbehind, happ, List.append_assoc]
  obtain ⟨rfl, rfl⟩ := eq_and_eq_of_byteLength_eq hmeet (by rw [byteLength_append, hlen, hstop])
  have hbehindName : ∀ e ∈ (c :: rest).head?, isIdentifierChar e = false := by
    simpa using hc
  obtain ⟨front, surplus, rfl, hsurplus, hfront⟩ := exists_surplus before
  refine ⟨?_, String.ofList surplus, by simpa using hsurplus, ?_, ?_⟩
  · have hpos := Char.utf8Size_pos c
    rw [size, hbehind, byteLength_append, hlen, byteLength]
    omega
  · have hwhole : source.toList =
        front ++ ((String.ofList surplus ++ d.name).toList ++ c :: rest) := by
      simpa using happ
    have hend : byteLength front + size (String.ofList surplus ++ d.name) = d.nameEnd := by
      simpa [size, Nat.add_assoc] using hstop
    exact (isWordEndingAt_iff hwhole hend).mpr ⟨hfront, hbehindName⟩
  · rw [isWordEndingAt_iff happ hstop, and_iff_left hbehindName]
    constructor
    · intro halone
      cases surplus using List.reverseRecOn with
      | nil => rfl
      | append_singleton surplus e =>
          have hother : isIdentifierChar e = false := halone e (by simp)
          rw [hsurplus e (by simp)] at hother
          cases hother
    · intro hempty
      obtain rfl : surplus = [] := by simpa using hempty
      simpa using hfront

/-- A record that has the whole identifier for its name. -/
theorem exists_word_of_plan_half :
    let source := "int half(int x) \x7b return x; \x7d"
    let d : Definition := ⟨"half", "int", [⟨"x", "int"⟩], 0, 8, ⟨16, 29⟩, 1⟩
    ∃ plan, d.plan source .empty "memoize" = .ok plan ∧ IsWordEndingAt source d.name d.nameEnd ∧
      d.nameEnd < size source ∧
        ∃ surplus : String, (∀ c ∈ surplus.toList, isIdentifierChar c = true) ∧
          IsWordEndingAt source (surplus ++ d.name) d.nameEnd ∧
          (IsWordEndingAt source d.name d.nameEnd ↔ surplus = "") := by
  intro source d
  have hclose : (Lexical.closingParen? "(int x)").isSome := by
    rw [Lexical.isSome_closingParen?]
    decide
  have hlist : d.parameterList source = .ok "(int x)" :=
    parameterList_eq_ok_iff.mpr ⟨"(int x) ", by decide +kernel, by decide +kernel, by decide, hclose⟩
  have hplan : d.plan source .empty "memoize" = .ok (d.planWith "memoize" "(int x)") :=
    plan_eq_ok_iff.mpr
      ⟨by decide +kernel, by decide +kernel, by decide +kernel, rfl, _, hlist, rfl⟩
  have hword : IsWordEndingAt source d.name d.nameEnd :=
    ⟨"int ".toList, "(int x) \x7b return x; \x7d".toList, by decide +kernel, by decide +kernel,
      by simp [isIdentifierChar], by simp [isIdentifierChar]⟩
  exact ⟨_, hplan, hword, exists_word_of_plan hplan⟩

/-- A record that has only the end of it. Its plan takes the identifier `half` out of the source. -/
theorem not_isWordEndingAt_of_displacedName :
    let source := "int half(int x) \x7b return x; \x7d"
    let f : TaggedFunction := ⟨"f", "int", [⟨"x", "int"⟩], 0, 8, some ⟨16, 29⟩, 1⟩
    let d : Definition := ⟨"f", "int", [⟨"x", "int"⟩], 0, 8, ⟨16, 29⟩, 1⟩
    f.toDefinition = .ok d ∧
      d.plan source .empty "memoize" = .ok (d.planWith "memoize" "(int x)") ∧
      (d.planWith "memoize" "(int x)").rename = .replace ⟨0, 8⟩ "int f__original__" ∧
      Span.slice? ⟨0, 8⟩ source = some "int half" ∧
      ¬ IsWordEndingAt source d.name d.nameEnd := by
  intro source f d
  have hclose : (Lexical.closingParen? "(int x)").isSome := by
    rw [Lexical.isSome_closingParen?]
    decide
  have hlist : d.parameterList source = .ok "(int x)" :=
    parameterList_eq_ok_iff.mpr ⟨"(int x) ", by decide +kernel, by decide +kernel, by decide, hclose⟩
  refine ⟨by decide +kernel, ?_, rfl, by decide +kernel, ?_⟩
  · exact plan_eq_ok_iff.mpr
      ⟨by decide +kernel, by decide +kernel, by decide +kernel, rfl, _, hlist, rfl⟩
  · have happ : source.toList =
        "int hal".toList ++ (d.name.toList ++ "(int x) \x7b return x; \x7d".toList) := by
      decide +kernel
    have hend : byteLength "int hal".toList + size d.name = d.nameEnd := by decide +kernel
    have hfront : 'l' ∈ "int hal".toList.getLast? := by decide +kernel
    rw [isWordEndingAt_iff happ hend]
    rintro ⟨hother, -⟩
    exact absurd (hother 'l' hfront) (by decide)

end Definition

end CachedCalls
