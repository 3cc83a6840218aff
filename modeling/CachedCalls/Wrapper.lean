/-
# Prototypes and wrappers

A wrapper takes over the name and parameter list of a function and forwards every call through a
proxy that an adapter builds from the renamed function. The proxy is a static variable of the
wrapper, so the adapter runs once, on the first call.
-/

import CachedCalls.Definition

namespace CachedCalls

/-- Name of the adapter when none is configured. -/
def defaultAdapter : String :=
  "memoize"

/-- Name of the static variable inside a wrapper. -/
def proxyName : String :=
  "proxy"

/-- What is appended to the name of a wrapped function. -/
def mangleSuffix : String :=
  "__original__"

/-- The name under which a wrapped function lives on. -/
def mangledName (name : String) : String :=
  name ++ mangleSuffix

/-- Return type, name and parameter list without a terminator. -/
def prototype (returnType name parameterList : String) : String :=
  returnType ++ " " ++ name ++ parameterList

/-- The prototype of a definition under its own name, its parameter list taken from the source. -/
def Definition.prototype (d : Definition) (source : String) : Except Rejection String := do
  return CachedCalls.prototype d.returnType d.name (← d.parameterList source)

/-- Names of the parameters in declared order, as they are passed on. -/
def argumentList (parameters : List Parameter) : String :=
  ", ".intercalate (parameters.map (·.name))

/-- Segments of a character sequence between occurrences of the scope operator, taken from left to
right. There is always at least one segment. -/
def scopeSegments : List Char → List (List Char)
  | [] => [[]]
  | c :: cs =>
    if c = ':' ∧ cs.head? = some ':' then [] :: scopeSegments (cs.drop 1)
    else
      match scopeSegments cs with
      | [] => [[c]]
      | segment :: segments => (c :: segment) :: segments
termination_by cs => cs.length
decreasing_by all_goals simp_all; try omega

/-- Whether an adapter is looked up from the global scope. -/
def isRooted (adapter : String) : Bool :=
  "::".toList.isPrefixOf adapter.toList

/-- The first segment of an adapter that is looked up from where it is used. -/
def adapterHead? (adapter : String) : Option String :=
  if isRooted adapter then none
  else (scopeSegments adapter.toList).head?.map String.ofList

/-- The first parameter a wrapper cannot have: one that the proxy redeclares, or one that hides the
adapter. -/
def shadowedParameter? (adapter : String) (parameters : List Parameter) : Option Parameter :=
  parameters.find? fun parameter =>
    parameter.name == proxyName || some parameter.name == adapterHead? adapter

/-- The wrapper definition without surrounding blank lines. -/
def wrapper (adapter prototype mangled : String) (parameters : List Parameter) : String :=
  prototype ++ " \x7b\nstatic const auto " ++ proxyName ++ " = " ++ adapter ++ "(" ++ mangled ++
    ");\nreturn " ++ proxyName ++ "(" ++ argumentList parameters ++ ");\n\x7d"

end CachedCalls
