/-
# What trimming takes away

A trimmed text is the text without blanks at its ends, and nothing else is
changed. So a text can be put together again from what trimming leaves and the
blanks it took away, which is how the context of a trimmed text is compared with
that of the text it came from.
-/

import CachedCalls.Text.Blank
import Mathlib.Data.List.TakeWhile

namespace CachedCalls.Text

/-- Nothing but blanks. -/
def AllBlank (cs : List Char) : Prop :=
  ∀ c ∈ cs, isBlank c = true

/-- Trimming at the end takes blanks away and nothing else. -/
theorem exists_trimRight_append (cs : List Char) :
    ∃ blanks, AllBlank blanks ∧ cs = trimRight cs ++ blanks := by
  refine ⟨(cs.reverse.takeWhile isBlank).reverse, fun c hc => ?_, ?_⟩
  · exact List.mem_takeWhile_imp (List.mem_reverse.mp hc)
  · rw [trimRight, ← List.reverse_append, List.takeWhile_append_dropWhile, List.reverse_reverse]

/-- A text begins with a blank or with the first character that trimming leaves. -/
theorem exists_cons_of_head?_trimLeft {cs : List Char} {d : Char}
    (h : (trimLeft cs).head? = some d) : ∃ c rest, cs = c :: rest ∧ (isBlank c = true ∨ c = d) := by
  cases cs with
  | nil => cases h
  | cons c rest =>
      refine ⟨c, rest, rfl, ?_⟩
      by_cases hblank : isBlank c = true
      · exact Or.inl hblank
      · exact Or.inr (by simpa [trimLeft, hblank] using h)

theorem trimRight_append_of_allBlank (cs : List Char) {blanks : List Char} (h : AllBlank blanks) :
    trimRight (cs ++ blanks) = trimRight cs := by
  have hblanks : AllBlank blanks.reverse := fun c hc => h c (List.mem_reverse.mp hc)
  rw [trimRight, List.reverse_append, List.dropWhile_append_of_pos hblanks, trimRight]

/-- Blanks at the end of a text do not count for its trimmed form. -/
theorem trimRight_trimLeft_trimRight (cs : List Char) :
    trimRight (trimLeft (trimRight cs)) = trimRight (trimLeft cs) := by
  obtain ⟨blanks, hblanks, heq⟩ := exists_trimRight_append cs
  have hleft : trimLeft cs = (trimRight cs ++ blanks).dropWhile isBlank := by
    rw [← heq, trimLeft]
  rw [hleft, List.dropWhile_append]
  split
  · next hempty =>
    rw [List.dropWhile_eq_nil_iff.mpr hblanks, trimLeft, List.isEmpty_iff.mp hempty]
  · rw [trimRight_append_of_allBlank _ hblanks, trimLeft]

theorem trim_trimEnd (text : String) : trim (trimEnd text) = trim text := by
  rw [trim, trimEnd, String.toList_ofList, trimRight_trimLeft_trimRight, trim]

theorem exists_trimEnd_append (text : String) :
    ∃ blanks, AllBlank blanks ∧ text.toList = (trimEnd text).toList ++ blanks := by
  rw [trimEnd, String.toList_ofList]
  exact exists_trimRight_append text.toList

/-- A text is its trimmed form between blanks. -/
theorem exists_trim_append (text : String) :
    ∃ before after, AllBlank before ∧ AllBlank after ∧
      text.toList = before ++ ((trim text).toList ++ after) := by
  obtain ⟨after, hafter, heq⟩ := exists_trimRight_append (trimLeft text.toList)
  refine ⟨text.toList.takeWhile isBlank, after, fun c => List.mem_takeWhile_imp, hafter, ?_⟩
  rw [trim, String.toList_ofList, ← heq, trimLeft, List.takeWhile_append_dropWhile]

end CachedCalls.Text
