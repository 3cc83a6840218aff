/-
# The plan for one function

A plan holds the new texts for one definition and the three edits that place them: the definition is
renamed where it stands, a wrapper follows it, and a declaration under the old name precedes it.
-/

import CachedCalls.Edit
import CachedCalls.SymbolTable
import CachedCalls.Wrapper

namespace CachedCalls

/-- A renaming: the new name and the edit that introduces it. -/
structure Rename where
  mangledName : String
  edit : Edit
deriving DecidableEq, Repr

/-- Everything needed to wrap one function. -/
structure Plan where
  function : String
  line : Nat
  mangledName : String
  prototype : String
  wrapper : String
  rename : Edit
  wrapperInsertion : Edit
  forwardDeclaration : Edit
  footprint : Span
deriving DecidableEq, Repr

namespace Plan

/-- The three edits: rename, wrapper, forward declaration. -/
def edits (plan : Plan) : List Edit :=
  [plan.rename, plan.wrapperInsertion, plan.forwardDeclaration]

end Plan

namespace Definition

/-- Rename a definition where it stands, unless the name is not where the record says or the new
name is taken. -/
def planRename (d : Definition) (source : String) (symbols : SymbolTable) :
    Except Rejection Rename := do
  d.checkName source
  let mangled := CachedCalls.mangledName d.name
  if symbols.contains mangled then throw ⟨d.name, .nameCollision mangled⟩
  return ⟨mangled, .replace d.renameSpan (d.returnType ++ " " ++ mangled)⟩

/-- Plan the wrapping of a definition against its source. -/
def plan (d : Definition) (source : String) (symbols : SymbolTable) (adapter : String) :
    Except Rejection Plan := do
  d.checkBody source
  if let some parameter := shadowedParameter? adapter d.parameters then
    throw ⟨d.name, .unsupportedSignature
      s!"parameter `{parameter.name}` would be shadowed inside the wrapper calling `{adapter}`"⟩
  let prototype ← d.prototype source
  let rename ← d.planRename source symbols
  let wrapper := CachedCalls.wrapper adapter prototype rename.mangledName d.parameters
  return {
    function := d.name
    line := d.line
    mangledName := rename.mangledName
    prototype := prototype
    wrapper := wrapper
    rename := rename.edit
    wrapperInsertion := .insertAfter d.body.stop ("\n\n" ++ wrapper)
    forwardDeclaration := .insertBefore d.declarationStart (prototype ++ ";\n")
    footprint := d.footprint }

end Definition

end CachedCalls
