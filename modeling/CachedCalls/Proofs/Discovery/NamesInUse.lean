/-
# Names in use

Functions are found on one walk over a syntax tree and the names in use on
another. The two agree in one direction: every name that the first walk reads is
the text of an identifier in the tree, and the second walk passes all of those.
So the names of the functions that are found, and those of their parameters,
count as taken, and no new name of a wrapped function equals any of them or any
other name that the tree shows.
-/

import CachedCalls.Proofs.Discovery.Declarators
import CachedCalls.Proofs.SourceUnit.SecondPass

namespace CachedCalls

open Text

namespace Tree

/-! ## Nodes of a tree -/

theorem map_snd_occurrencesIn (parent : Tree) (children : List Tree) :
    (occurrencesIn parent children).map (·.2) = children.flatMap nodes := by
  induction children with
  | nil => rfl
  | cons child siblings ih =>
      have hchild : (occurrences (some parent) child).map (·.2) = child.nodes := by
        cases child
        rfl
      rw [occurrencesIn, List.map_append, ih, hchild, List.flatMap_cons]

/-- The nodes of a tree are the tree itself and the nodes of its children. -/
theorem nodes_eq (tree : Tree) : tree.nodes = tree :: tree.children.flatMap nodes := by
  obtain ⟨label, inside⟩ := tree
  rw [nodes, occurrences, List.map_cons, map_snd_occurrencesIn]
  rfl

theorem mem_nodes_self (tree : Tree) : tree ∈ tree.nodes := by
  rw [nodes_eq]
  exact List.mem_cons_self

theorem mem_nodes_of_mem_children {tree child inner : Tree} (hchild : child ∈ tree.children)
    (h : inner ∈ child.nodes) : inner ∈ tree.nodes := by
  rw [nodes_eq]
  exact List.mem_cons_of_mem _ (List.mem_flatMap.mpr ⟨child, hchild, h⟩)

/-- A node below a node of a tree is a node of the tree. -/
theorem mem_nodes_trans {tree outer inner : Tree} (houter : outer ∈ tree.nodes)
    (h : inner ∈ outer.nodes) : inner ∈ tree.nodes := by
  induction tree using induction_on_children with
  | step tree ih =>
      rw [nodes_eq] at houter
      rcases List.mem_cons.mp houter with rfl | hbelow
      · exact h
      · obtain ⟨child, hchild, hmem⟩ := List.mem_flatMap.mp hbelow
        exact mem_nodes_of_mem_children hchild (ih child hchild hmem)

theorem mem_nodes_of_child? {tree inner : Tree} {field : String}
    (h : tree.child? field = some inner) : inner ∈ tree.nodes :=
  mem_nodes_of_mem_children (mem_children_of_child? h) (mem_nodes_self inner)

theorem mem_nodes_of_wraps {tree function : Tree} (h : Wraps function tree) :
    function ∈ tree.nodes := by
  induction h with
  | itself => exact mem_nodes_self function
  | under _ hinner _ ih =>
      exact mem_nodes_of_mem_children (mem_children_of_innerDeclarator? hinner) ih

theorem mem_nodes_of_declares {tree function name : Tree} (h : tree.Declares function name) :
    function ∈ tree.nodes ∧ name ∈ function.nodes := by
  obtain ⟨declarator, hdeclarator, hwraps, hname⟩ := h
  exact ⟨mem_nodes_trans (mem_nodes_of_child? hdeclarator) (mem_nodes_of_wraps hwraps),
    mem_nodes_of_child? hname⟩

/-! ## Names that are read from a tree -/

/-- A name is read from a tree: it is the text of an identifier in it. -/
def Shows (tree : Tree) (source name : String) : Prop :=
  ∃ inner ∈ tree.nodes, inner.kind = "identifier" ∧ inner.text source = name

theorem Shows.of_mem_nodes {tree outer : Tree} {source name : String} (houter : outer ∈ tree.nodes)
    (h : outer.Shows source name) : tree.Shows source name := by
  obtain ⟨inner, hinner, hkind, htext⟩ := h
  exact ⟨inner, mem_nodes_trans houter hinner, hkind, htext⟩

/-- The name of a parameter is that of the first identifier in its declarator. -/
theorem shows_name_parameter {declaration : Tree} {source : String}
    (h : (declaration.parameter source).name ≠ "") :
    declaration.Shows source (declaration.parameter source).name := by
  unfold parameter at h ⊢
  cases hdeclarator : declaration.child? "declarator" with
  | none => simp [hdeclarator] at h
  | some declarator =>
      simp only [hdeclarator] at h ⊢
      split_ifs at h ⊢ with habstract
      · exact absurd rfl h
      · cases hfind : declarator.nodes.find? fun inner => inner.kind == "identifier" with
        | none => simp [hfind] at h
        | some identifier =>
            have hkind := List.find?_some hfind
            exact ⟨identifier, mem_nodes_trans (mem_nodes_of_child? hdeclarator)
              (List.mem_of_find?_eq_some hfind), by simpa using hkind, rfl⟩

/-- Every named parameter of a function declarator has its name from there. -/
theorem shows_name_of_mem_parameters {function : Tree} {source : String}
    {parameters : List Parameter} (h : function.parameters source = .ok parameters)
    {p : Parameter} (hp : p ∈ parameters) (hname : p.name ≠ "") :
    function.Shows source p.name := by
  unfold Tree.parameters at h
  split at h
  · cases h
  · rename_i list hlist
    split at h
    · cases h
    · have hmem : ∃ declaration ∈ list.childrenOfKind "parameter_declaration",
          p = declaration.parameter source := by
        dsimp only at h
        split at h
        · rename_i only honly
          split_ifs at h with hvoid
          · cases h
            cases hp
          · cases h
            exact ⟨only, by simp [honly], by simpa using hp⟩
        · cases h
          obtain ⟨declaration, hdeclaration, rfl⟩ := List.mem_map.mp hp
          exact ⟨declaration, hdeclaration, rfl⟩
      obtain ⟨declaration, hdeclaration, rfl⟩ := hmem
      have hchild := (List.mem_filter.mp hdeclaration).1
      have hnode := mem_nodes_trans (mem_nodes_of_child? hlist)
        (mem_nodes_of_mem_children hchild (mem_nodes_self declaration))
      exact (shows_name_parameter hname).of_mem_nodes hnode

/-- A function that is found has its name, and the names of its parameters, from
the tree. -/
theorem shows_of_mem_candidates {tree : Tree} {source marker : String} {f : TaggedFunction}
    (h : .ok f ∈ tree.candidates source marker) :
    tree.Shows source f.name ∧ ∀ p ∈ f.parameters, p.name ≠ "" → tree.Shows source p.name := by
  obtain ⟨⟨parent, place⟩, hmem, hplace⟩ := List.mem_filterMap.mp h
  have hnode : place ∈ tree.nodes := List.mem_map.mpr ⟨_, hmem, rfl⟩
  obtain ⟨function, name, start, hdescribed⟩ := exists_described_of_candidate? hplace
  obtain ⟨hkind, hparameters⟩ := hdescribed.plain f rfl
  obtain ⟨hfunction, hname⟩ := mem_nodes_of_declares hdescribed.declares
  have hfunction := mem_nodes_trans hnode hfunction
  refine ⟨⟨name, mem_nodes_trans hfunction hname, hkind, ?_⟩, fun p hp hne => ?_⟩
  · exact (congrArg Prod.snd hdescribed.entry_eq).symm
  · exact (shows_name_of_mem_parameters hparameters hp hne).of_mem_nodes hfunction

/-! ## The names in use -/

theorem contains_symbols_iff {tree : Tree} {source name : String} :
    (tree.symbols source).contains name = true ↔
      ∃ inner ∈ tree.nodes, name ∈ inner.symbolsAt source := by
  rw [symbols, SymbolTable.contains_insertAll, List.mem_flatMap]
  simp [SymbolTable.contains, SymbolTable.empty]

theorem contains_symbols_of_mem_symbolKinds {tree inner : Tree} {source : String}
    (h : inner ∈ tree.nodes) (hkind : inner.kind ∈ symbolKinds) :
    (tree.symbols source).contains (inner.text source) = true := by
  refine contains_symbols_iff.mpr ⟨inner, h, ?_⟩
  rw [symbolsAt, if_pos (List.contains_iff_mem.mpr hkind)]
  exact List.mem_singleton_self _

theorem contains_symbols_of_preproc {tree inner : Tree} {source word : String}
    (h : inner ∈ tree.nodes) (hkind : inner.kind = "preproc_arg")
    (hword : (SymbolTable.scan (inner.text source)).contains word = true) :
    (tree.symbols source).contains word = true := by
  refine contains_symbols_iff.mpr ⟨inner, h, ?_⟩
  rw [symbolsAt, hkind, if_neg (by decide), if_pos rfl]
  exact (SymbolTable.contains_scan _ _).mp hword

theorem Shows.contains_symbols {tree : Tree} {source name : String} (h : tree.Shows source name) :
    (tree.symbols source).contains name = true := by
  obtain ⟨inner, hinner, hkind, rfl⟩ := h
  exact contains_symbols_of_mem_symbolKinds hinner (by rw [hkind]; decide)

end Tree

/-- New names are fresh. The names of all functions that are found in a tree, and
of all their parameters, are among the names in use that the same tree shows.
Hence the new name of a wrapped function is none of them, and it is neither the
text of a node that names something nor a word of a macro's replacement. -/
theorem wrapSource_mangledName_fresh (source : String) (tree : Tree) (marker adapter : String) :
    (∀ f, .ok f ∈ tree.candidates source marker →
      (tree.symbols source).contains f.name = true ∧
      ∀ p ∈ f.parameters, p.name ≠ "" → (tree.symbols source).contains p.name = true) ∧
    ∃ outcome, wrapSource source tree marker adapter = .ok outcome ∧
      ∀ w ∈ outcome.wrapped, w.mangledName = mangledName w.name ∧
        (∀ f, .ok f ∈ tree.candidates source marker →
          w.mangledName ≠ f.name ∧ ∀ p ∈ f.parameters, w.mangledName ≠ p.name) ∧
        (∀ inner ∈ tree.nodes, inner.kind ∈ Tree.symbolKinds →
          w.mangledName ≠ inner.text source) ∧
        ∀ inner ∈ tree.nodes, inner.kind = "preproc_arg" →
          ∀ word, (SymbolTable.scan (inner.text source)).contains word = true →
            w.mangledName ≠ word := by
  have hnames : ∀ f, .ok f ∈ tree.candidates source marker →
      (tree.symbols source).contains f.name = true ∧
      ∀ p ∈ f.parameters, p.name ≠ "" → (tree.symbols source).contains p.name = true := by
    intro f hf
    obtain ⟨hname, hparameters⟩ := Tree.shows_of_mem_candidates hf
    exact ⟨hname.contains_symbols, fun p hp hne => (hparameters p hp hne).contains_symbols⟩
  refine ⟨hnames, ?_⟩
  obtain ⟨text, -, -, hrun⟩ :=
    wrapUnit_eq_ok source (tree.symbols source) adapter (tree.candidates source marker)
  refine ⟨_, hrun, ?_⟩
  rw [List.forall_mem_map]
  intro plan hplan
  obtain ⟨hidentifier, hmangled, hfree⟩ := names_of_mem_survivors hplan
  -- A name in use cannot be the new name, which was looked for among them.
  have hfresh : ∀ name, (tree.symbols source).contains name = true → plan.mangledName ≠ name := by
    rintro name htaken rfl
    rw [hfree] at htaken
    cases htaken
  refine ⟨hmangled, fun f hf => ⟨hfresh _ (hnames f hf).1, fun p hp => ?_⟩,
    fun inner hinner hkind => hfresh _ (Tree.contains_symbols_of_mem_symbolKinds hinner hkind),
    fun inner hinner hkind word hword =>
      hfresh _ (Tree.contains_symbols_of_preproc hinner hkind hword)⟩
  by_cases hname : p.name = ""
  · show plan.mangledName ≠ p.name
    rw [hname, hmangled]
    exact ne_empty_of_isIdentifier (isIdentifier_mangledName hidentifier)
  · exact hfresh _ ((hnames f hf).2 p hp hname)

end CachedCalls
