/-
# Syntax trees

The concrete syntax of a source text as a parser delivers it: every node has a kind, possibly a
field name in its parent, the bytes it covers, and its children in source order. A tree arrives as
rows in preorder, each with its depth. No relation between a node's bytes and those of its children
is assumed.
-/

import CachedCalls.Span

namespace CachedCalls

/-- What a parser says about one node. -/
structure NodeLabel where
  kind : String
  /-- The role of the node in its parent. -/
  field : Option String
  span : Span
  /-- Whether the node has a name in the grammar, unlike punctuation and keywords. -/
  named : Bool
  /-- Whether there is a syntax error in the node or anywhere below it. -/
  hasError : Bool
deriving DecidableEq, Repr

/-- A node with its children in source order. -/
inductive Tree where
  | node (label : NodeLabel) (children : List Tree)
deriving Repr

namespace Tree

def label : Tree → NodeLabel
  | node label _ => label

def children : Tree → List Tree
  | node _ children => children

def kind (tree : Tree) : String :=
  tree.label.kind

def span (tree : Tree) : Span :=
  tree.label.span

/-- Place one more row in front of the trees built from the rows behind it. The trees that lie
deeper, up to the first that does not, become its children. -/
def placeRow (row : Nat × NodeLabel) (later : List (Nat × Tree)) : List (Nat × Tree) :=
  let below := later.takeWhile fun tree => decide (row.1 < tree.1)
  let beside := later.dropWhile fun tree => decide (row.1 < tree.1)
  (row.1, node row.2 (below.map (·.2))) :: beside

/-- The first tree described by rows in preorder. -/
def ofRows? (rows : List (Nat × NodeLabel)) : Option Tree :=
  (rows.foldr placeRow []).head?.map (·.2)

/-- The first child in the given role. -/
def child? (tree : Tree) (field : String) : Option Tree :=
  tree.children.find? fun child => child.label.field == some field

/-- Children of the given kind, in source order. -/
def childrenOfKind (tree : Tree) (kind : String) : List Tree :=
  tree.children.filter fun child => child.kind == kind

/-- The source text of a node, empty when its bytes are not a valid range of the source. -/
def text (tree : Tree) (source : String) : String :=
  (tree.span.slice? source).getD ""

mutual

/-- Every node of a tree in preorder, each with its parent. -/
def occurrences (parent : Option Tree) : Tree → List (Option Tree × Tree)
  | node label children =>
    (parent, node label children) :: occurrencesIn (node label children) children

/-- Every node below a parent in preorder, each with its own parent. -/
def occurrencesIn (parent : Tree) : List Tree → List (Option Tree × Tree)
  | [] => []
  | child :: siblings => occurrences (some parent) child ++ occurrencesIn parent siblings

end

/-- Every node of a tree in preorder. -/
def nodes (tree : Tree) : List Tree :=
  (occurrences none tree).map (·.2)

end Tree

end CachedCalls
