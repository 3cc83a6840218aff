/-
# Where the parts of a found function stand

A definition may be made from any offsets, so its record is checked before it is
used. Whether those checks can fail for a function found in a syntax tree
depends on the tree, and three nodes decide it: the first child that belongs to
the declaration, the name at the end of the way through the declarators, and the
body. In a tree whose nodes nest and whose siblings stand side by side, they
stand in this order. The declaration begins no later than its outermost
declarator, each declarator on the way lies within the one before, and the body
stands behind all of them.

Hence a function with a plain name found in such a tree is never turned away for
its offsets, only for its signature, and its name is where its record says.
-/

import CachedCalls.Proofs.Discovery.NamesInUse
import CachedCalls.Proofs.Discovery.ReturnType

namespace CachedCalls

open Text

namespace Tree

variable {tree : Tree} {source : String}

/-! ## Well-formed trees -/

/-- A node fits the source and its own children. It covers whole characters, its
children lie within it and do not overlap, and a body stands behind the
declarator next to it and covers something. -/
@[mk_iff]
structure Arranged (tree : Tree) (source : String) : Prop where
  start_le_stop : tree.span.start ≤ tree.span.stop
  start_isBoundary : isBoundary source tree.span.start = true
  stop_isBoundary : isBoundary source tree.span.stop = true
  children_within : ∀ child ∈ tree.children,
    tree.span.start ≤ child.span.start ∧ child.span.stop ≤ tree.span.stop
  children_apart : tree.children.Pairwise fun left right => left.span.stop ≤ right.span.start
  body_behind : ∀ declarator ∈ tree.child? "declarator", ∀ body ∈ tree.child? "body",
    declarator.span.stop ≤ body.span.start ∧ body.span.start < body.span.stop

instance (tree : Tree) (source : String) : Decidable (tree.Arranged source) :=
  decidable_of_iff' _ (arranged_iff tree source)

/-- A tree over a source is well-formed if each of its nodes is arranged. -/
def WellFormed (tree : Tree) (source : String) : Prop :=
  ∀ inner ∈ tree.nodes, inner.Arranged source

instance (tree : Tree) (source : String) : Decidable (tree.WellFormed source) :=
  inferInstanceAs (Decidable (∀ inner ∈ tree.nodes, inner.Arranged source))

theorem WellFormed.arranged (h : tree.WellFormed source) : tree.Arranged source :=
  h tree (mem_nodes_self tree)

theorem WellFormed.of_mem_nodes {inner : Tree} (h : tree.WellFormed source)
    (hinner : inner ∈ tree.nodes) : inner.WellFormed source :=
  fun _ hbelow => h _ (mem_nodes_trans hinner hbelow)

theorem WellFormed.of_mem_children {child : Tree} (h : tree.WellFormed source)
    (hchild : child ∈ tree.children) : child.WellFormed source :=
  h.of_mem_nodes (mem_nodes_of_mem_children hchild (mem_nodes_self child))

/-- What holds of a child holds of every node below: it lies within the tree. -/
theorem WellFormed.within {inner : Tree} (h : tree.WellFormed source)
    (hinner : inner ∈ tree.nodes) :
    tree.span.start ≤ inner.span.start ∧ inner.span.stop ≤ tree.span.stop := by
  induction tree using induction_on_children with
  | step tree ih =>
      rw [nodes_eq] at hinner
      rcases List.mem_cons.mp hinner with rfl | hbelow
      · exact ⟨Nat.le_refl _, Nat.le_refl _⟩
      · obtain ⟨child, hchild, hmem⟩ := List.mem_flatMap.mp hbelow
        obtain ⟨houter, houter'⟩ := h.arranged.children_within child hchild
        obtain ⟨hlower, hlower'⟩ := ih child hchild (h.of_mem_children hchild) hmem
        exact ⟨Nat.le_trans houter hlower, Nat.le_trans hlower' houter'⟩

/-! ## The order of the three nodes -/

/-- No child that belongs to a declaration begins before it. -/
theorem WellFormed.start_le_of_declarationStart? {start child : Tree}
    (h : tree.WellFormed source) (hstart : tree.declarationStart? = some start)
    (hchild : child ∈ tree.children)
    (hbelongs : (!(child.kind == "attribute_declaration" || child.kind == "comment")) = true) :
    start.span.start ≤ child.span.start := by
  obtain ⟨-, before, after, hparts, hskipped⟩ := List.find?_eq_some_iff_append.mp hstart
  have hapart := h.arranged.children_apart
  rw [hparts] at hchild hapart
  rcases List.mem_append.mp hchild with hbefore | hbehind
  · -- What is passed over on the way to the start does not belong to the declaration.
    have hskip := hskipped child hbefore
    rw [hbelongs] at hskip
    cases hskip
  · rcases List.mem_cons.mp hbehind with rfl | hafter
    · exact Nat.le_refl _
    · have hnext := List.rel_of_pairwise_cons (List.pairwise_append.mp hapart).2.1 hafter
      have hmem : start ∈ tree.children := by simp [hparts]
      exact Nat.le_trans (h.of_mem_children hmem).arranged.start_le_stop hnext

/-- The start of a declaration, the name it declares and its body follow each
other. -/
theorem WellFormed.order_of_declares {start function name body : Tree}
    (h : tree.WellFormed source) (hstart : tree.declarationStart? = some start)
    (hdeclares : tree.Declares function name) (hbody : tree.child? "body" = some body) :
    start.span.start ≤ name.span.start ∧ name.span.stop ≤ body.span.start ∧
      body.span.start < body.span.stop := by
  obtain ⟨declarator, hdeclarator, hwraps, hname⟩ := hdeclares
  have hmem := mem_children_of_child? hdeclarator
  -- However long the way inwards is, the name is a node of the outermost declarator.
  have hinside : name ∈ declarator.nodes :=
    mem_nodes_trans (mem_nodes_of_wraps hwraps) (mem_nodes_of_child? hname)
  obtain ⟨hfirst, hlast⟩ := (h.of_mem_children hmem).within hinside
  have hbegins := h.start_le_of_declarationStart? hstart hmem hwraps.belongsToDeclaration
  obtain ⟨hbehind, hnonempty⟩ := h.arranged.body_behind declarator hdeclarator body hbody
  exact ⟨Nat.le_trans hbegins hfirst, Nat.le_trans hlast hbehind, hnonempty⟩

/-! ## Functions found in a well-formed tree -/

/-- The record of a function with a plain name has its offsets in order and room
for the name, and its outer offsets lie between characters. -/
theorem WellFormed.exists_body_of_mem_candidates {marker : String} {f : TaggedFunction}
    (h : tree.WellFormed source) (hf : .ok f ∈ tree.candidates source marker)
    (hname : isIdentifier f.name = true) :
    ∃ body, f.body = some body ∧ f.declarationStart + size f.name ≤ f.nameEnd ∧
      f.nameEnd ≤ body.start ∧ body.start < body.stop ∧
      isBoundary source f.declarationStart = true ∧ isBoundary source body.stop = true := by
  obtain ⟨place, hplace, start, function, name, body, hstart, hdeclares, hbody, htaken⟩ :=
    exists_takenFrom_of_mem_candidates hf
  have hwell := h.of_mem_nodes hplace
  obtain ⟨hfirst, hlast, hnonempty⟩ := hwell.order_of_declares hstart hdeclares hbody
  have hstartNode := hwell.of_mem_children (List.mem_of_find?_eq_some hstart)
  have hbodyNode := hwell.of_mem_children (mem_children_of_child? hbody)
  have hsize := Span.size_of_slice? (htaken.slice?_name hname)
  obtain ⟨-, hdeclaration, hend, hspan, -⟩ := htaken
  refine ⟨body.span, hspan, by omega, by omega, hnonempty, ?_, hbodyNode.arranged.stop_isBoundary⟩
  rw [hdeclaration]
  exact hstartNode.arranged.start_isBoundary

/-- A function with a plain name found in a well-formed tree has its offsets in
order, with room for the name. So it is never turned away for them, and the
definition it becomes is placed in the source with its name where it should
be. -/
theorem offsets_ordered_of_mem_candidates {marker : String} {f : TaggedFunction}
    (htree : tree.WellFormed source) (hf : .ok f ∈ tree.candidates source marker)
    (hname : isIdentifier f.name = true) :
    (∃ body, f.body = some body ∧ f.declarationStart + size f.name ≤ f.nameEnd ∧
      f.nameEnd ≤ body.start ∧ body.start < body.stop) ∧
    (∀ rejection, f.toDefinition = .error rejection →
      ∃ reason, rejection = ⟨f.name, .unsupportedSignature reason⟩) ∧
    ∀ d, f.toDefinition = .ok d → d.Placed source ∧ d.checkName source = .ok () := by
  obtain ⟨body, hbody, hroom, hbehind, hnonempty, hbegins, hends⟩ :=
    htree.exists_body_of_mem_candidates hf hname
  have hpos := size_pos_iff.mpr (ne_empty_of_isIdentifier hname)
  have hfirst : f.declarationStart ≤ f.nameEnd := by omega
  have hstart : f.declarationStart < body.start := by omega
  refine ⟨⟨body, hbody, hroom, hbehind, hnonempty⟩, fun rejection h => ?_, fun d h => ?_⟩
  · exact TaggedFunction.eq_unsupportedSignature_of_toDefinition hbody hname hstart hfirst hbehind
      hnonempty h
  · obtain ⟨raw, -, hnamed, -⟩ := exists_slices_of_mem_candidates hf h
    obtain ⟨span, hspan, -, -, -, -, -, -, -, -, rfl⟩ := TaggedFunction.toDefinition_eq_ok_iff.mp h
    obtain rfl : body = span := Option.some.inj (hbody.symm.trans hspan)
    refine ⟨?_, Definition.checkName_eq_ok_iff.mpr ⟨hroom, hnamed⟩⟩
    exact {
      start_le_nameEnd := hfirst
      nameEnd_le_body := hbehind
      body_nonempty := hnonempty
      start_isBoundary := hbegins
      nameEnd_isBoundary := Span.isBoundary_stop_of_slice? hnamed
      stop_isBoundary := hends }

/-- A comment between the return type and the name keeps its place among the
children. -/
theorem offsets_ordered_of_mem_candidates_commented :
    let source := "[[memoize]] int /**/\nf() \x7b\x7d"
    let f : TaggedFunction := ⟨"f", "int /**/", [], 12, 22, some ⟨25, 27⟩, 1⟩
    commentedFunction.WellFormed source ∧
      .ok f ∈ commentedFunction.candidates source "memoize" ∧ isIdentifier f.name = true ∧
      (∃ body, f.body = some body ∧ f.declarationStart + size f.name ≤ f.nameEnd ∧
        f.nameEnd ≤ body.start ∧ body.start < body.stop) ∧
      (∀ rejection, f.toDefinition = .error rejection →
        ∃ reason, rejection = ⟨f.name, .unsupportedSignature reason⟩) ∧
      ∀ d, f.toDefinition = .ok d → d.Placed source ∧ d.checkName source = .ok () := by
  intro source f
  have htree : commentedFunction.WellFormed source := by decide +kernel
  have hf : .ok f ∈ commentedFunction.candidates source "memoize" := by decide +kernel
  have hname : isIdentifier f.name = true := by decide
  exact ⟨htree, hf, hname, offsets_ordered_of_mem_candidates htree hf hname⟩

end Tree

end CachedCalls
