/-
# The scan of a text covers the names of its tree

Names in use are collected in two ways: a walk over the syntax tree reads them
off single nodes, and a scan of the whole text reads every word. The walk looks at
less, but what it finds need not be among what the scan finds, because a part of a
text can hold a word that the text does not have. That is the case when the part
begins or ends inside a word, and this is the only case: where no two word
characters meet at the bounds of a part, its words are words of the text. So a
name that is free for the scan is free for the tree, as long as no node that
names are read from cuts through a word.
-/

import CachedCalls.Proofs.Discovery.NamesInUse

namespace CachedCalls

namespace Text

/-! ## Words of a part of a text -/

/-- No word goes on across an offset: of the two characters that meet there, one
does not belong to a word. -/
def IsWordEdge (source : String) (offset : Nat) : Prop :=
  ∀ parts ∈ cut? offset source.toList, ∀ a ∈ parts.1.getLast?, ∀ b ∈ parts.2.head?,
    isWordChar a = true → isWordChar b = false

-- Only the two characters that meet are looked at; left to itself the instance would try
-- every character there is.
instance (source : String) (offset : Nat) : Decidable (IsWordEdge source offset) :=
  decidable_of_iff
    (((cut? offset source.toList).all fun parts => parts.1.getLast?.all fun a =>
      parts.2.head?.all fun b => decide (isWordChar a = true → isWordChar b = false)) = true)
    (by
      simp only [Option.all_eq_true, decide_eq_true_eq]
      rfl)

theorem IsWordEdge.of_append {source : String} {before after : List Char}
    (h : IsWordEdge source (byteLength before)) (happ : source.toList = before ++ after) :
    ∀ a ∈ before.getLast?, ∀ b ∈ after.head?, isWordChar a = true → isWordChar b = false :=
  h (before, after) (cut?_eq_some_iff.mpr ⟨happ, rfl⟩)

/-- A word of a part of a text is a word of the text if the part begins and ends
where no word goes on. -/
theorem HasWord.of_slice? {source text word : String} {span : Span}
    (hslice : span.slice? source = some text) (hstart : IsWordEdge source span.start)
    (hstop : IsWordEdge source span.stop) (h : HasWord text word) : HasWord source word := by
  obtain ⟨hne, hchars, front, rest, htext, hfront, hrest⟩ := h
  obtain ⟨before, after, hsource, hbefore, hinside⟩ := Span.slice?_eq_some_iff.mp hslice
  have hword : word.toList ≠ [] := by simpa using hne
  refine ⟨hne, hchars, before ++ front, rest ++ after, by simp [hsource, htext], ?_, ?_⟩
  · -- Only a word at the very beginning of the part touches what stands in front of it.
    intro a ha
    cases front with
    | cons c front => exact hfront a (by simpa using ha)
    | nil =>
        rw [List.append_nil] at ha
        rw [← hbefore] at hstart
        obtain ⟨b, cs, hcs⟩ := List.exists_cons_of_ne_nil hword
        have hedge := hstart.of_append hsource a ha b (by simp [htext, hcs])
        rw [← Bool.not_eq_true]
        intro hword
        have hb := hchars b (by simp [hcs])
        rw [hedge hword] at hb
        cases hb
  · intro b hb
    cases rest with
    | cons c rest => exact hrest b (by simpa using hb)
    | nil =>
        rw [List.nil_append] at hb
        rw [← hinside, ← byteLength_append] at hstop
        have happ : source.toList = (before ++ text.toList) ++ after := by simp [hsource]
        have hlast : word.toList.getLast hword ∈ (before ++ text.toList).getLast? := by
          rw [htext, List.append_nil, ← List.append_assoc, List.getLast?_append_of_ne_nil _ hword,
            List.getLast?_eq_some_getLast hword]
          rfl
        exact hstop.of_append happ _ hlast b hb (hchars _ (List.getLast_mem hword))

theorem hasWord_self {word : String} (h : isIdentifier word = true) : HasWord word word :=
  ⟨ne_empty_of_isIdentifier h,
    fun c hc => isWordChar_of_isIdentifierChar (isIdentifierChar_of_mem h c hc), [], [], by simp,
    by simp, by simp⟩

end Text

open Text

namespace Tree

/-! ## Names that nodes bring into use -/

/-- No node that names are read from begins or ends inside a word. Where the bytes
of such a node are no range of the source it has no text, and nothing is asked of
it. -/
def CutsNoWord (tree : Tree) (source : String) : Prop :=
  ∀ inner ∈ tree.nodes, inner.kind ∈ symbolKinds ∨ inner.kind = "preproc_arg" →
    (inner.span.slice? source).isSome = true →
      IsWordEdge source inner.span.start ∧ IsWordEdge source inner.span.stop

instance (tree : Tree) (source : String) : Decidable (tree.CutsNoWord source) :=
  inferInstanceAs (Decidable (∀ inner ∈ tree.nodes, _))

/-- An identifier that a node brings into use is a word of the node's text. -/
theorem hasWord_of_mem_symbolsAt {inner : Tree} {source name : String}
    (hname : isIdentifier name = true) (h : name ∈ inner.symbolsAt source) :
    (inner.kind ∈ symbolKinds ∨ inner.kind = "preproc_arg") ∧
      HasWord (inner.text source) name := by
  unfold symbolsAt at h
  split_ifs at h with hkind hpreproc
  · obtain rfl := List.mem_singleton.mp h
    exact ⟨.inl (List.contains_iff_mem.mp hkind), hasWord_self hname⟩
  · exact ⟨.inr hpreproc, (mem_identifiers_iff.mp h).2⟩
  · cases h

/-- A node without a text shows no word. -/
theorem exists_slice?_of_hasWord_text {inner : Tree} {source word : String}
    (h : HasWord (inner.text source) word) :
    inner.span.slice? source = some (inner.text source) := by
  unfold Tree.text at h ⊢
  cases hslice : inner.span.slice? source with
  | some text => rfl
  | none =>
      obtain ⟨hne, -, before, after, happ, -, -⟩ := h
      simp_all

end Tree

/-- The scan misses no name that the tree shows. If no node that names are read
from cuts through a word, then every identifier in use in the tree is one of the
words of the source. So a new name that is free for the scan is free for the tree,
and a function that can be wrapped with the names of the scan in use can be wrapped
in the same way with those of the tree in use. -/
theorem contains_scan_of_contains_symbols (source : String) (tree : Tree)
    (hwords : tree.CutsNoWord source) :
    (∀ name, isIdentifier name = true → (tree.symbols source).contains name = true →
      (SymbolTable.scan source).contains name = true) ∧
    (∀ name, isIdentifier name = true →
      (SymbolTable.scan source).contains (mangledName name) = false →
      (tree.symbols source).contains (mangledName name) = false) ∧
    ∀ (f : TaggedFunction) (d : Definition) (adapter : String) (plan : Plan),
      f.toDefinition = .ok d → d.plan source (.scan source) adapter = .ok plan →
      d.plan source (tree.symbols source) adapter = .ok plan := by
  have hscan : ∀ name, isIdentifier name = true → (tree.symbols source).contains name = true →
      (SymbolTable.scan source).contains name = true := by
    intro name hname htaken
    obtain ⟨inner, hinner, hmem⟩ := Tree.contains_symbols_iff.mp htaken
    obtain ⟨hkind, hword⟩ := Tree.hasWord_of_mem_symbolsAt hname hmem
    have hslice := Tree.exists_slice?_of_hasWord_text hword
    obtain ⟨hstart, hstop⟩ := hwords inner hinner hkind (by rw [hslice]; rfl)
    rw [SymbolTable.contains_scan, mem_identifiers_iff]
    exact ⟨hname, hword.of_slice? hslice hstart hstop⟩
  have hfree : ∀ name, isIdentifier name = true →
      (SymbolTable.scan source).contains (mangledName name) = false →
      (tree.symbols source).contains (mangledName name) = false := by
    intro name hname hfree
    rw [← Bool.not_eq_true] at hfree ⊢
    exact mt (hscan _ (isIdentifier_mangledName hname)) hfree
  refine ⟨hscan, hfree, fun f d adapter plan hd hplan => ?_⟩
  obtain ⟨_, -, hname, -, -, -, -, -, -, -, rfl⟩ := TaggedFunction.toDefinition_eq_ok_iff.mp hd
  obtain ⟨hbody, hshadow, hcheck, hunused, hlist⟩ := Definition.plan_eq_ok_iff.mp hplan
  exact Definition.plan_eq_ok_iff.mpr ⟨hbody, hshadow, hcheck, hfree _ hname hunused, hlist⟩

/-- The tree of a macro that stands for a name, with one node whose bytes are not in
the source. -/
def macroTree : Tree :=
  .node ⟨"translation_unit", none, ⟨0, 19⟩, true, false⟩ [
    .node ⟨"preproc_def", none, ⟨0, 13⟩, true, false⟩ [
      .node ⟨"identifier", some "name", ⟨8, 9⟩, true, false⟩ [],
      .node ⟨"preproc_arg", some "value", ⟨10, 12⟩, true, false⟩ []],
    .node ⟨"identifier", none, ⟨17, 18⟩, true, false⟩ [],
    .node ⟨"type_identifier", none, ⟨18, 40⟩, true, false⟩ []]

theorem contains_scan_of_contains_symbols_macro :
    macroTree.CutsNoWord "#define K b2\nint b;" ∧
    (macroTree.symbols "#define K b2\nint b;").contains "b2" = true ∧
    (SymbolTable.scan "#define K b2\nint b;").contains "b2" = true := by
  have hwords : macroTree.CutsNoWord "#define K b2\nint b;" := by decide +kernel
  have htaken : (macroTree.symbols "#define K b2\nint b;").contains "b2" = true := by
    decide +kernel
  exact ⟨hwords, htaken,
    (contains_scan_of_contains_symbols _ macroTree hwords).1 "b2" (by decide) htaken⟩

-- A node that cuts through a word shows one that the scan does not find.
example : ¬ Tree.CutsNoWord (.node ⟨"identifier", none, ⟨1, 2⟩, true, false⟩ []) "ab" ∧
    (SymbolTable.scan "ab").contains "b" = false := by
  decide +kernel

end CachedCalls
