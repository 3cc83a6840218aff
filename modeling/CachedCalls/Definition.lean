/-
# Tagged functions and their definitions

A tagged function is a record of offsets and texts claimed by whoever matched it. A definition is
such a record after the checks that need no source text: it has a body behind its declaration, plain
names throughout and a return type. Whether the offsets fit a given source is checked separately and
only then is text taken from it.
-/

import CachedCalls.Lexical
import CachedCalls.Rejection
import CachedCalls.Span
import CachedCalls.Text.Blank
import CachedCalls.Text.Word

namespace CachedCalls

/-- One declared parameter. -/
structure Parameter where
  name : String
  typeText : String
deriving DecidableEq, Repr

/-- A tagged function as it was matched. -/
structure TaggedFunction where
  name : String
  /-- Everything between the start of the declaration and the name. -/
  returnType : String
  parameters : List Parameter
  /-- Where the declaration begins, behind its attributes. -/
  declarationStart : Nat
  /-- One past the last byte of the name. -/
  nameEnd : Nat
  /-- The braced body, if there is one. -/
  body : Option Span
  /-- Line of the declaration, counted from one. -/
  line : Nat
deriving DecidableEq, Repr

/-- A tagged function that has a body and a shape a wrapper can forward to. -/
structure Definition where
  name : String
  returnType : String
  parameters : List Parameter
  declarationStart : Nat
  nameEnd : Nat
  body : Span
  line : Nat
deriving DecidableEq, Repr

/-- Specifiers under which a function cannot hold a static variable. -/
def compileTimeSpecifiers : List String :=
  ["constexpr", "consteval"]

namespace TaggedFunction

/-- The first compile-time specifier among the words of the return type. -/
def compileTimeSpecifier? (f : TaggedFunction) : Option String :=
  ((Text.identifierRuns f.returnType.toList).map String.ofList).find?
    (compileTimeSpecifiers.contains ·)

/-- Position, counted from one, of the first parameter that cannot be passed on by name. -/
def unnamedParameter? (f : TaggedFunction) : Option Nat :=
  (f.parameters.findIdx? fun parameter => !Text.isIdentifier parameter.name).map (· + 1)

/-- Check a matched record and keep it as a definition. The first failing check decides. -/
def toDefinition (f : TaggedFunction) : Except Rejection Definition :=
  let unresolvable (reason : String) : Except Rejection Definition :=
    .error ⟨f.name, .unresolvableSpan reason⟩
  let unsupported (reason : String) : Except Rejection Definition :=
    .error ⟨f.name, .unsupportedSignature reason⟩
  match f.body with
  | none => .error ⟨f.name, .missingBody⟩
  | some body =>
    if !Text.isIdentifier f.name then unsupported "only plain identifiers can be renamed"
    else if body.start ≤ f.declarationStart then
      unresolvable s!"body starts at byte {body.start} but the declaration starts at byte {f.declarationStart}"
    else if f.nameEnd < f.declarationStart ∨ body.start < f.nameEnd then
      unresolvable s!"name ends at byte {f.nameEnd}, outside the declaration {f.declarationStart}..{body.start}"
    else if body.stop ≤ body.start then unresolvable "body span is empty"
    else if (Text.trim f.returnType).isEmpty then unsupported "no return type"
    else
      match f.compileTimeSpecifier?, f.unnamedParameter? with
      | some specifier, _ =>
        unsupported s!"a `{specifier}` function cannot hold the static proxy"
      | none, some position => unsupported s!"parameter {position} has no usable name"
      | none, none =>
        .ok {
          name := f.name
          returnType := Text.trim f.returnType
          parameters := f.parameters
          declarationStart := f.declarationStart
          nameEnd := f.nameEnd
          body := body
          line := f.line }

end TaggedFunction

namespace Definition

/-- The bytes replaced by a rename: from the declaration's start through the name. -/
def renameSpan (d : Definition) : Span :=
  ⟨d.declarationStart, d.nameEnd⟩

/-- The bytes between the name and the body. -/
def parameterListSpan (d : Definition) : Span :=
  ⟨d.nameEnd, d.body.start⟩

/-- All bytes of the definition. -/
def footprint (d : Definition) : Span :=
  ⟨d.declarationStart, d.body.stop⟩

/-- Reject a definition because its offsets do not fit the source. -/
def unresolvable {α : Type} (d : Definition) (reason : String) : Except Rejection α :=
  .error ⟨d.name, .unresolvableSpan reason⟩

/-- The definition lies inside the source and its body is enclosed in braces. -/
def checkBody (d : Definition) (source : String) : Except Rejection Unit :=
  match d.footprint.slice? source with
  | none =>
    d.unresolvable s!"definition {d.footprint.display} is outside the {Text.size source}-byte source or splits a character"
  | some _ =>
    match d.body.slice? source with
    | none => d.unresolvable s!"body {d.body.display} splits a character"
    | some body =>
      if body.toList.head? = some '\x7b' ∧ body.toList.getLast? = some '\x7d' then .ok ()
      else d.unresolvable s!"body {d.body.display} is not enclosed in braces"

/-- The text that stands where the name should, if the declaration has room for it. -/
def nameText? (d : Definition) (source : String) : Option String :=
  if d.declarationStart + Text.size d.name ≤ d.nameEnd then
    Span.slice? ⟨d.nameEnd - Text.size d.name, d.nameEnd⟩ source
  else none

/-- The name really ends where the record says. Otherwise the offsets were displaced and a rename
would destroy unrelated text. -/
def checkName (d : Definition) (source : String) : Except Rejection Unit :=
  match d.nameText? source with
  | none => d.unresolvable s!"name span ending at byte {d.nameEnd} is outside the source"
  | some text =>
    if text = d.name then .ok ()
    else d.unresolvable s!"expected the name before byte {d.nameEnd}, found `{text}`"

/-- The parameter list and what follows it up to the body, byte for byte except for the blanks in
front of the body. -/
def parameterList (d : Definition) (source : String) : Except Rejection String :=
  match d.parameterListSpan.slice? source with
  | none =>
    d.unresolvable s!"parameter list {d.parameterListSpan.display} is outside the source or splits a character"
  | some raw =>
    let text := Text.trimEnd raw
    if (Text.trimLeft text.toList).head? ≠ some '(' then
      d.unresolvable "parameter list does not start with `(`"
    else if (Lexical.closingParen? text).isNone then
      d.unresolvable "parameter list has no matching `)`"
    else .ok text

end Definition

end CachedCalls
