/-
# Finding tagged functions in a syntax tree

A function is tagged when an attribute in front of it names the marker. Only free functions with a
plain name are described; every other tagged function is reported as a failure, and a tagged
declaration that declares no function is passed over. The names in use are collected from the same
tree.
-/

import CachedCalls.SourceUnit
import CachedCalls.Tree

namespace CachedCalls

/-- Number of line breaks in the first `n` bytes of a character sequence. -/
def lineBreaksBefore : Nat → List Char → Nat
  | 0, _ => 0
  | _ + 1, [] => 0
  | n + 1, c :: cs => (if c = '\n' then 1 else 0) + lineBreaksBefore (n + 1 - c.utf8Size) cs

/-- Line of a byte offset, counted from one. -/
def lineOf (source : String) (offset : Nat) : Nat :=
  lineBreaksBefore offset source.toList + 1

namespace Tree

/-- Kinds of declarators that can stand around a function declarator. -/
def wrappingDeclarators : List String :=
  ["pointer_declarator", "reference_declarator", "attributed_declarator"]

mutual

/-- The function declarator under any pointers, references and attributes. The way down goes
through the inner declarator or, where that role is not filled, through the last named child. -/
def functionDeclarator? : Tree → Option Tree
  | node label children =>
    if label.kind = "function_declarator" then some (node label children)
    else if wrappingDeclarators.contains label.kind then
      match underDeclarator children with
      | some found => found
      | none => underLastNamed none children
    else none

/-- The function declarator under the first sibling that is an inner declarator, if there is such a
sibling. -/
def underDeclarator : List Tree → Option (Option Tree)
  | [] => none
  | child :: siblings =>
    if child.label.field = some "declarator" then some (functionDeclarator? child)
    else underDeclarator siblings

/-- The function declarator under the last named sibling; `found` is the answer so far. -/
def underLastNamed (found : Option Tree) : List Tree → Option Tree
  | [] => found
  | child :: siblings =>
    underLastNamed (if child.label.named then functionDeclarator? child else found) siblings

end

/-- Whether an attribute list names the marker without a namespace in front. -/
def namesMarker (attributes : Tree) (source marker : String) : Bool :=
  (attributes.childrenOfKind "attribute").any fun entry =>
    match entry.child? "name" with
    | some name => (entry.child? "prefix").isNone && name.text source == marker
    | none => Text.trim (entry.text source) == marker

/-- Where the attribute lists of a node that name the marker begin. In a statement position the
lists belong to the parent. -/
def markerOffsets (tree : Tree) (parent : Option Tree) (source marker : String) : List Nat :=
  let own := tree.childrenOfKind "attribute_declaration"
  let inherited :=
    match parent with
    | some parent =>
      if parent.kind = "attributed_statement" then parent.childrenOfKind "attribute_declaration"
      else []
    | none => []
  ((own ++ inherited).filter fun list => list.namesMarker source marker).map (·.span.start)

/-- The first child that belongs to the declaration proper. Leading attributes and comments stay in
front of it. -/
def declarationStart? (tree : Tree) : Option Tree :=
  tree.children.find? fun child =>
    !(child.kind == "attribute_declaration" || child.kind == "comment")

/-- Why a tagged definition cannot be wrapped, judged by where it stands and how it is named. -/
def unsupportedShape? (parent : Option Tree) (name : Tree) : Option String :=
  match parent.map (·.kind) with
  | some "template_declaration" => some "templates are not supported"
  | some "field_declaration_list" => some "member functions are not supported"
  | _ =>
    match name.kind with
    | "identifier" => none
    | "qualified_identifier" => some "qualified names cannot be renamed"
    | "field_identifier" => some "member functions are not supported"
    | "operator_name" => some "operators cannot be renamed"
    | "destructor_name" => some "destructors cannot be renamed"
    | "template_function" => some "template specializations are not supported"
    | _ => some "only plain identifiers can be renamed"

/-- Why one entry of a parameter list cannot be passed on by a wrapper. -/
def unforwardable? (entry : Tree) : Option String :=
  match entry.kind with
  | "optional_parameter_declaration" =>
    some "default arguments would be repeated on the generated declarations"
  | "variadic_parameter" | "variadic_parameter_declaration" | "..." =>
    some "variadic parameters cannot be forwarded"
  | _ => none

/-- One declared parameter. A parameter without a name gets the empty name. -/
def parameter (declaration : Tree) (source : String) : Parameter :=
  match declaration.child? "declarator" with
  | none => ⟨"", Text.trim (declaration.text source)⟩
  | some declarator =>
    let name :=
      if "abstract_".toList.isPrefixOf declarator.kind.toList then ""
      else
        match declarator.nodes.find? fun inner => inner.kind == "identifier" with
        | some identifier => identifier.text source
        | none => ""
    let type := Span.slice? ⟨declaration.span.start, declarator.span.start⟩ source
    ⟨name, Text.trim (type.getD "")⟩

/-- Whether a declaration is the single `void` that stands for an empty parameter list. -/
def isVoid (declaration : Tree) (source : String) : Bool :=
  (declaration.child? "declarator").isNone && Text.trim (declaration.text source) == "void"

/-- The parameters of a function declarator, or why they cannot be passed on. -/
def parameters (function : Tree) (source : String) : Except String (List Parameter) :=
  match function.child? "parameters" with
  | none => .error "the declarator has no parameter list"
  | some list =>
    match list.children.findSome? unforwardable? with
    | some reason => .error reason
    | none =>
      let declarations := list.childrenOfKind "parameter_declaration"
      match declarations with
      | [only] => if only.isVoid source then .ok [] else .ok [only.parameter source]
      | _ => .ok (declarations.map fun declaration => declaration.parameter source)

/-- The failure of a tagged definition that cannot be wrapped, or its body and parameters. -/
def describeDefinition (tree : Tree) (parent : Option Tree) (source : String) (tags : List Nat)
    (function name start : Tree) : Except Cause (Tree × List Parameter) := do
  if let some reason := unsupportedShape? parent name then
    throw (.unsupportedSignature reason)
  if tags.any fun tag => decide (start.span.start < tag) then
    throw (.unsupportedSignature "the marker must come before the declaration")
  if tree.label.hasError then
    throw (.unsupportedSignature "the definition contains syntax errors")
  let body ←
    match tree.child? "body" with
    | none => throw .missingBody
    | some body =>
      if body.kind = "compound_statement" then pure body
      else throw (.unsupportedSignature "function-try-blocks are not supported")
  match function.parameters source with
  | .error reason => throw (.unsupportedSignature reason)
  | .ok parameters => return (body, parameters)

/-- Describe a node tagged at the given offsets. There is no candidate when the node declares no
function. -/
def describe? (tree : Tree) (parent : Option Tree) (source : String) (tags : List Nat) :
    Option Candidate := do
  let function ← (← tree.child? "declarator").functionDeclarator?
  let name ← function.child? "declarator"
  let start ← tree.declarationStart?
  let line := lineOf source start.span.start
  let fail (cause : Cause) : Candidate := .error ⟨line, name.text source, cause⟩
  if tree.kind = "declaration" then return fail .missingBody
  match tree.describeDefinition parent source tags function name start with
  | .error cause => return fail cause
  | .ok (body, parameters) =>
    return .ok {
      name := name.text source
      returnType :=
        Text.trimEnd ((Span.slice? ⟨start.span.start, name.span.start⟩ source).getD "")
      parameters := parameters
      declarationStart := start.span.start
      nameEnd := name.span.stop
      body := some body.span
      line := line }

/-- The candidate at one node: a function definition or a declaration that carries the marker. -/
def candidate? (source marker : String) (parent : Option Tree) (tree : Tree) : Option Candidate :=
  if tree.kind = "function_definition" ∨ tree.kind = "declaration" then
    match tree.markerOffsets parent source marker with
    | [] => none
    | tags => tree.describe? parent source tags
  else none

/-- The candidates of a source text in preorder of their nodes. -/
def candidates (tree : Tree) (source marker : String) : List Candidate :=
  (tree.occurrences none).filterMap fun (parent, place) => candidate? source marker parent place

/-- Kinds of nodes whose text names something. -/
def symbolKinds : List String :=
  ["identifier", "field_identifier", "type_identifier", "namespace_identifier",
    "statement_identifier"]

/-- The names one node brings into use. The replacement text of a macro is not parsed, so all its
words count. -/
def symbolsAt (tree : Tree) (source : String) : List String :=
  if symbolKinds.contains tree.kind then [tree.text source]
  else if tree.kind = "preproc_arg" then Text.identifiers (tree.text source)
  else []

/-- The names in use in a source text, as far as its syntax tree shows them. -/
def symbols (tree : Tree) (source : String) : SymbolTable :=
  SymbolTable.empty.insertAll (tree.nodes.flatMap fun inner => inner.symbolsAt source)

end Tree

/-- Wrap the tagged functions of a source text with the given syntax tree. -/
def wrapSource (source : String) (tree : Tree) (marker adapter : String) :
    Except EditFault UnitOutcome :=
  wrapUnit source (tree.symbols source) adapter (tree.candidates source marker)

end CachedCalls
