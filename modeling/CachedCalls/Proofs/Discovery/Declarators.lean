/-
# Which tagged definitions are found

A tagged definition is described by the function declarator inside it. The way
there leads through pointers, references and attributes, one declarator at a
time, and it ends where a declarator of any other kind stands. The search is
compared with that way: a tagged definition yields a candidate if and only if
the way from its declarator ends at a function declarator with a name.

So a tagged definition can be passed over. A function that returns a reference
to an array has its function declarator inside an array declarator, and a
conversion operator has none at all. Neither is wrapped, and neither is reported
as a failure.
-/

import CachedCalls.Discovery
import CachedCalls.Proofs.SourceUnit.Accounting
import Mathlib.Data.List.Forall2

namespace CachedCalls

namespace Tree

/-! ## The way to a function declarator -/

/-- The declarator inside another one: the child in that role or, if that role
is not filled, the last child with a name in the grammar. -/
def innerDeclarator? (tree : Tree) : Option Tree :=
  match tree.child? "declarator" with
  | some inner => some inner
  | none => (tree.children.filter (·.label.named)).getLast?

/-- From a declarator the way inwards, through wrapping declarators only, ends
at the given function declarator. -/
inductive Wraps (function : Tree) : Tree → Prop where
  | itself : function.kind = "function_declarator" → Wraps function function
  | under {outer inner : Tree} : outer.kind ∈ wrappingDeclarators →
      outer.innerDeclarator? = some inner → Wraps function inner → Wraps function outer

theorem underDeclarator_eq (children : List Tree) :
    underDeclarator children =
      (children.find? fun child => child.label.field == some "declarator").map
        functionDeclarator? := by
  induction children with
  | nil => rfl
  | cons child siblings ih =>
      rw [underDeclarator, List.find?_cons]
      split_ifs with hfield
      · simp [hfield]
      · have hother : (child.label.field == some "declarator") = false :=
          beq_eq_false_iff_ne.mpr hfield
        rw [ih, hother]

theorem underLastNamed_eq (found : Option Tree) (children : List Tree) :
    underLastNamed found children =
      match (children.filter (·.label.named)).getLast? with
      | some last => functionDeclarator? last
      | none => found := by
  induction children generalizing found with
  | nil => rfl
  | cons child siblings ih =>
      rw [underLastNamed, ih, List.filter_cons]
      split_ifs with hnamed
      · cases hlast : (siblings.filter (·.label.named)).getLast? with
        | none => simp [List.getLast?_eq_none_iff.mp hlast]
        | some last => simp [List.getLast?_cons, hlast]
      · rfl

/-- One step of the search for a function declarator. -/
theorem functionDeclarator?_eq (tree : Tree) :
    tree.functionDeclarator? =
      if tree.kind = "function_declarator" then some tree
      else if tree.kind ∈ wrappingDeclarators then
        tree.innerDeclarator?.bind functionDeclarator?
      else none := by
  obtain ⟨label, inside⟩ := tree
  rw [functionDeclarator?, underDeclarator_eq, underLastNamed_eq]
  show _ = if label.kind = "function_declarator" then _ else
    if label.kind ∈ wrappingDeclarators then _ else _
  simp only [List.contains_iff_mem]
  split_ifs with hkind hwrapping
  · rfl
  · rw [innerDeclarator?, child?, children]
    cases inside.find? fun child => child.label.field == some "declarator" with
    | some inner => rfl
    | none => cases (inside.filter (·.label.named)).getLast? <;> rfl
  · rfl

theorem mem_children_of_child? {tree inner : Tree} {field : String}
    (h : tree.child? field = some inner) : inner ∈ tree.children :=
  List.mem_of_find?_eq_some h

theorem mem_children_of_innerDeclarator? {tree inner : Tree}
    (h : tree.innerDeclarator? = some inner) : inner ∈ tree.children := by
  rw [innerDeclarator?] at h
  split at h
  · cases h
    exact mem_children_of_child? ‹_›
  · exact (List.mem_filter.mp (List.mem_of_getLast? h)).1

/-- What holds of a tree whenever it holds of its children holds of every tree. -/
theorem induction_on_children {motive : Tree → Prop}
    (step : ∀ tree : Tree, (∀ child ∈ tree.children, motive child) → motive tree) :
    ∀ tree, motive tree
  | node label inside => step (node label inside) fun child hchild =>
      have hmem : child ∈ inside := hchild
      have hsmaller : sizeOf child < sizeOf (node label inside) :=
        Nat.lt_of_lt_of_le (List.sizeOf_lt_of_mem hmem) (by simp)
      induction_on_children step child
termination_by tree => sizeOf tree

/-- The search finds a function declarator exactly where the way inwards ends at
it. -/
theorem functionDeclarator?_eq_some_iff {tree function : Tree} :
    tree.functionDeclarator? = some function ↔ Wraps function tree := by
  constructor
  · induction tree using induction_on_children with
    | step tree ih =>
        intro h
        rw [functionDeclarator?_eq] at h
        split_ifs at h with hkind hwrapping
        · cases h
          exact .itself hkind
        · obtain ⟨inner, hinner, hfound⟩ := Option.bind_eq_some_iff.mp h
          exact .under hwrapping hinner (ih inner (mem_children_of_innerDeclarator? hinner) hfound)
  · intro h
    induction h with
    | itself hkind => rw [functionDeclarator?_eq, if_pos hkind]
    | @under outer inner hwrapping hinner _ ih =>
        have hkind : outer.kind ≠ "function_declarator" := by
          intro heq
          rw [heq] at hwrapping
          exact absurd hwrapping (by decide)
        rw [functionDeclarator?_eq, if_neg hkind, if_pos hwrapping, hinner, Option.bind_some, ih]

/-! ## What a node declares -/

/-- A node declares a function under the name at `name`: the way inwards from its
declarator ends at the declarator of that function, and the name is the
declarator inside that one. -/
def Declares (tree function name : Tree) : Prop :=
  ∃ declarator, tree.child? "declarator" = some declarator ∧ Wraps function declarator ∧
    function.child? "declarator" = some name

/-- A node carries the marker: an attribute list among its children names it, or
one in the attributed statement that the node stands in. -/
def Carries (tree : Tree) (parent : Option Tree) (source marker : String) : Prop :=
  ∃ list : Tree, list.kind = "attribute_declaration" ∧ list.namesMarker source marker = true ∧
    (list ∈ tree.children ∨
      ∃ outer, parent = some outer ∧ outer.kind = "attributed_statement" ∧ list ∈ outer.children)

theorem mem_attributeLists_iff {tree list : Tree} :
    list ∈ tree.childrenOfKind "attribute_declaration" ↔
      list.kind = "attribute_declaration" ∧ list ∈ tree.children := by
  rw [childrenOfKind, List.mem_filter, beq_iff_eq, and_comm]

theorem markerOffsets_ne_nil_iff {tree : Tree} {parent : Option Tree} {source marker : String} :
    tree.markerOffsets parent source marker ≠ [] ↔ tree.Carries parent source marker := by
  have hinherited : ∀ list, (list ∈ tree.childrenOfKind "attribute_declaration" ++
      (match parent with
        | some outer =>
          if outer.kind = "attributed_statement" then outer.childrenOfKind "attribute_declaration"
          else []
        | none => [])) ↔
      list.kind = "attribute_declaration" ∧ (list ∈ tree.children ∨
        ∃ outer, parent = some outer ∧ outer.kind = "attributed_statement" ∧
          list ∈ outer.children) := by
    intro list
    cases parent with
    | none => simp [mem_attributeLists_iff]
    | some outer =>
        by_cases hkind : outer.kind = "attributed_statement"
        · simp [hkind, mem_attributeLists_iff, and_or_left]
        · simp [hkind, mem_attributeLists_iff]
  unfold markerOffsets
  rw [Ne, List.map_eq_nil_iff, List.filter_eq_nil_iff, not_forall]
  constructor
  · intro h
    obtain ⟨list, h⟩ := h
    obtain ⟨hmem, hnames⟩ := not_forall.mp h
    obtain ⟨hlist, hmem⟩ := (hinherited list).mp hmem
    exact ⟨list, hlist, not_not.mp hnames, hmem⟩
  · rintro ⟨list, hlist, hnames, hmem⟩
    exact ⟨list, fun h => h ((hinherited list).mpr ⟨hlist, hmem⟩) hnames⟩

/-- Attribute lists and comments stand in front of a declaration. A declarator on
the way to a function is neither. -/
theorem Wraps.belongsToDeclaration {function declarator : Tree} (h : Wraps function declarator) :
    (!(declarator.kind == "attribute_declaration" || declarator.kind == "comment")) = true := by
  cases h with
  | itself hkind => rw [hkind]; rfl
  | under hwrapping _ _ =>
      have hall : ∀ kind ∈ wrappingDeclarators,
          (!(kind == "attribute_declaration" || kind == "comment")) = true := by decide
      exact hall _ hwrapping

/-- A declaration begins at its declarator if it does not begin before. -/
theorem exists_declarationStart?_of_declares {tree function name : Tree}
    (h : tree.Declares function name) : ∃ start, tree.declarationStart? = some start := by
  obtain ⟨declarator, hdeclarator, hwraps, -⟩ := h
  rw [← Option.isSome_iff_exists, declarationStart?, List.find?_isSome]
  exact ⟨declarator, mem_children_of_child? hdeclarator, hwraps.belongsToDeclaration⟩

/-! ## Candidates -/

theorem kind_eq_of_unsupportedShape? {parent : Option Tree} {name : Tree}
    (h : unsupportedShape? parent name = none) : name.kind = "identifier" := by
  unfold unsupportedShape? at h
  split at h
  · cases h
  · cases h
  · split at h <;> first | assumption | cases h

/-- A definition that is described has a plain name, a body and parameters that
can be passed on. -/
theorem of_describeDefinition_eq_ok {tree function name start body : Tree} {parent : Option Tree}
    {source : String} {tags : List Nat} {parameters : List Parameter}
    (h : tree.describeDefinition parent source tags function name start =
      .ok (body, parameters)) :
    name.kind = "identifier" ∧ tree.child? "body" = some body ∧
      function.parameters source = .ok parameters := by
  unfold describeDefinition at h
  simp only [bind, Except.bind, pure, Except.pure, throw, throwThe, MonadExceptOf.throw] at h
  split at h
  · cases h
  · rename_i hshape
    split_ifs at h
    split at h
    · cases h
    · rename_i hbody
      split_ifs at h
      split at h
      · cases h
      · rename_i hparameters
        cases h
        exact ⟨kind_eq_of_unsupportedShape? (Option.eq_none_iff_forall_not_mem.mpr hshape),
          hbody, hparameters⟩

/-- The record of a definition with the given parts. -/
def recordWith (source : String) (start name body : Tree) (parameters : List Parameter) :
    TaggedFunction where
  name := name.text source
  returnType := Text.trimEnd ((Span.slice? ⟨start.span.start, name.span.start⟩ source).getD "")
  parameters := parameters
  declarationStart := start.span.start
  nameEnd := name.span.stop
  body := some body.span
  line := lineOf source start.span.start

/-- A description is made of a node that declares a function, and it is a failure
or the record of a definition. -/
theorem exists_of_describe? {tree : Tree} {parent : Option Tree} {source : String}
    {tags : List Nat} {candidate : Candidate}
    (h : tree.describe? parent source tags = some candidate) :
    ∃ function name start, tree.Declares function name ∧ tree.declarationStart? = some start ∧
      ((∃ cause, candidate =
          .error ⟨lineOf source start.span.start, name.text source, cause⟩) ∨
        ∃ body parameters,
          tree.describeDefinition parent source tags function name start =
            .ok (body, parameters) ∧
          candidate = .ok (recordWith source start name body parameters)) := by
  simp only [describe?, bind, Option.bind_eq_some_iff] at h
  obtain ⟨declarator, hdeclarator, function, hfunction, name, hname, start, hstart, h⟩ := h
  have hdeclares : tree.Declares function name :=
    ⟨declarator, hdeclarator, functionDeclarator?_eq_some_iff.mp hfunction, hname⟩
  refine ⟨function, name, start, hdeclares, hstart, ?_⟩
  split at h
  · cases h
    exact Or.inl ⟨_, rfl⟩
  · split at h
    · cases h
      exact Or.inl ⟨_, rfl⟩
    · rename_i hdefinition
      cases h
      exact Or.inr ⟨_, _, hdefinition, rfl⟩

/-- What a candidate keeps of the node it was made from. -/
structure Described (tree function name start : Tree) (source : String) (candidate : Candidate) :
    Prop where
  declares : tree.Declares function name
  begins : tree.declarationStart? = some start
  /-- A failure is reported under the same line and name as a match. -/
  entry_eq : candidate.entry = (lineOf source start.span.start, name.text source)
  plain : ∀ f, candidate = .ok f →
    name.kind = "identifier" ∧ function.parameters source = .ok f.parameters

theorem exists_described_of_describe? {tree : Tree} {parent : Option Tree} {source : String}
    {tags : List Nat} {candidate : Candidate}
    (h : tree.describe? parent source tags = some candidate) :
    ∃ function name start, Described tree function name start source candidate := by
  obtain ⟨function, name, start, hdeclares, hstart, hfail | hmatch⟩ := exists_of_describe? h
  · obtain ⟨cause, rfl⟩ := hfail
    exact ⟨function, name, start, hdeclares, hstart, rfl, fun f hf => by cases hf⟩
  · obtain ⟨body, parameters, hdefinition, rfl⟩ := hmatch
    obtain ⟨hkind, -, hparameters⟩ := of_describeDefinition_eq_ok hdefinition
    refine ⟨function, name, start, hdeclares, hstart, rfl, fun f hf => ?_⟩
    cases hf
    exact ⟨hkind, hparameters⟩

theorem isSome_describe?_iff {tree : Tree} {parent : Option Tree} {source : String}
    {tags : List Nat} :
    (tree.describe? parent source tags).isSome ↔ ∃ function name, tree.Declares function name := by
  constructor
  · intro h
    obtain ⟨candidate, hcandidate⟩ := Option.isSome_iff_exists.mp h
    obtain ⟨function, name, start, hdescribed⟩ := exists_described_of_describe? hcandidate
    exact ⟨function, name, hdescribed.declares⟩
  · rintro ⟨function, name, hdeclares⟩
    obtain ⟨start, hstart⟩ := exists_declarationStart?_of_declares hdeclares
    obtain ⟨declarator, hdeclarator, hwraps, hname⟩ := hdeclares
    simp only [describe?, hdeclarator, functionDeclarator?_eq_some_iff.mpr hwraps, hname, hstart,
      bind, Option.bind_some]
    split
    · rfl
    · split <;> rfl

theorem exists_describe?_of_candidate? {source marker : String} {parent : Option Tree}
    {tree : Tree} {candidate : Candidate}
    (h : candidate? source marker parent tree = some candidate) :
    ∃ tags, tree.describe? parent source tags = some candidate := by
  unfold candidate? at h
  split_ifs at h
  split at h
  · cases h
  · exact ⟨_, h⟩

theorem exists_described_of_candidate? {source marker : String} {parent : Option Tree}
    {tree : Tree} {candidate : Candidate}
    (h : candidate? source marker parent tree = some candidate) :
    ∃ function name start, Described tree function name start source candidate := by
  obtain ⟨tags, hdescribe⟩ := exists_describe?_of_candidate? h
  exact exists_described_of_describe? hdescribe

theorem isSome_candidate?_iff {source marker : String} {parent : Option Tree} {tree : Tree} :
    (candidate? source marker parent tree).isSome ↔
      (tree.kind = "function_definition" ∨ tree.kind = "declaration") ∧
        tree.Carries parent source marker ∧ ∃ function name, tree.Declares function name := by
  rw [← markerOffsets_ne_nil_iff, candidate?]
  split_ifs with hkind
  · cases htags : tree.markerOffsets parent source marker with
    | nil => simp
    | cons tag tags => simp [isSome_describe?_iff, hkind]
  · simp [hkind]

/-- What becomes of every node of a tree. A definition or a declaration that
carries the marker yields one candidate, under its own line and name, if and
only if it declares a function; no other node yields any. The candidates stand in
the order of their nodes. -/
theorem exists_found_candidates (tree : Tree) (source marker : String) :
    ∃ found : List (Option Candidate),
      tree.candidates source marker = found.filterMap id ∧
      List.Forall₂ (fun (occurrence : Option Tree × Tree) result =>
        (result.isSome ↔
          (occurrence.2.kind = "function_definition" ∨ occurrence.2.kind = "declaration") ∧
            occurrence.2.Carries occurrence.1 source marker ∧
            ∃ function name, occurrence.2.Declares function name) ∧
        ∀ candidate, result = some candidate →
          ∃ function name start, Described occurrence.2 function name start source candidate)
        (tree.occurrences none) found := by
  refine ⟨(tree.occurrences none).map fun occurrence =>
    candidate? source marker occurrence.1 occurrence.2, ?_, ?_⟩
  · rw [List.filterMap_map]
    rfl
  · rw [List.forall₂_map_right_iff, List.forall₂_same]
    intro occurrence _
    exact ⟨isSome_candidate?_iff, fun candidate => exists_described_of_candidate?⟩

/-- The syntax of a tagged function that returns a reference to an array. The
function declarator stands inside a reference, parentheses and an array. -/
def arrayReturningDefinition : Tree :=
  let leaf (kind : String) (field : Option String) (start stop : Nat) : Tree :=
    node ⟨kind, field, ⟨start, stop⟩, true, false⟩ []
  let tag := node ⟨"attribute", none, ⟨2, 9⟩, true, false⟩
    [leaf "identifier" (some "name") 2 9]
  let parameter := node ⟨"parameter_declaration", none, ⟨20, 25⟩, true, false⟩
    [leaf "primitive_type" (some "type") 20 23, leaf "identifier" (some "declarator") 24 25]
  let function := node ⟨"function_declarator", none, ⟨18, 26⟩, true, false⟩
    [leaf "identifier" (some "declarator") 18 19,
     node ⟨"parameter_list", some "parameters", ⟨19, 26⟩, true, false⟩ [parameter]]
  let reference := node ⟨"reference_declarator", none, ⟨17, 26⟩, true, false⟩ [function]
  let parentheses :=
    node ⟨"parenthesized_declarator", some "declarator", ⟨16, 27⟩, true, false⟩ [reference]
  let array := node ⟨"array_declarator", some "declarator", ⟨16, 30⟩, true, false⟩
    [parentheses, leaf "number_literal" (some "size") 28 29]
  node ⟨"function_definition", none, ⟨0, 44⟩, true, false⟩
    [node ⟨"attribute_declaration", none, ⟨0, 11⟩, true, false⟩ [tag],
     leaf "primitive_type" (some "type") 12 15, array,
     leaf "compound_statement" (some "body") 31 44]

/-- A tagged definition is passed over without a word when the way to its function
declarator leads through an array. -/
theorem candidates_arrayReturningDefinition_eq_nil :
    let source := "[[memoize]] int (&f(int x))[3] \x7b return a; \x7d"
    let unit := node ⟨"translation_unit", none, ⟨0, 44⟩, true, false⟩ [arrayReturningDefinition]
    (some unit, arrayReturningDefinition) ∈ unit.occurrences none ∧
      arrayReturningDefinition.kind = "function_definition" ∧
      arrayReturningDefinition.Carries (some unit) source "memoize" ∧
      (∃ function ∈ arrayReturningDefinition.nodes, function.kind = "function_declarator" ∧
        (function.child? "declarator").map (·.text source) = some "f") ∧
      unit.candidates source "memoize" = [] := by
  intro source unit
  refine ⟨?_, rfl, markerOffsets_ne_nil_iff.mp (by decide +kernel), ?_, by decide +kernel⟩
  · refine List.mem_cons_of_mem _ (List.mem_append_left _ ?_)
    exact List.mem_cons_self
  · have hany : (arrayReturningDefinition.nodes.any fun function =>
        function.kind == "function_declarator" &&
          (function.child? "declarator").map (·.text source) == some "f") = true := by
      decide +kernel
    simpa using hany

end Tree

end CachedCalls
