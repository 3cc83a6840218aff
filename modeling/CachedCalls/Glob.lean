/-
# Matching paths

A pattern describes whole paths, byte by byte in their UTF-8 form. Matching follows all
possibilities at once: it marks the positions of the path that can be reached by the tokens so far,
and each token moves the marks. This takes one pass over the path for each part of a token.
-/

import CachedCalls.Files.Path
import CachedCalls.Glob.Method
import CachedCalls.Glob.Nesting

namespace CachedCalls

namespace Glob

/-- Which positions of a path are reached: one mark for the place in front of each byte, in order,
and one for the end. -/
abbrev Marks := List Bool

/-- Only the beginning of a path is reached. -/
def startMarks (path : List UInt8) : Marks :=
  true :: path.map fun _ => false

/-- The positions that are marked in one of two ways. -/
def either (first second : Marks) : Marks :=
  List.zipWith (fun a b => a || b) first second

/-- The positions behind one byte that is accepted and stands at a marked position. -/
def step (accepts : UInt8 → Bool) (path : List UInt8) (marks : Marks) : Marks :=
  false :: List.zipWith (fun mark b => mark && accepts b) marks path

/-- The positions at or behind a marked one; `reached` says that one was passed already. -/
def spreadFrom (reached : Bool) : Marks → Marks
  | [] => []
  | mark :: marks => (reached || mark) :: spreadFrom (reached || mark) marks

/-- The positions at or behind a marked one. -/
def spread (marks : Marks) : Marks :=
  spreadFrom false marks

/-- The positions behind a slash at a marked position. -/
def stepSlash (path : List UInt8) (marks : Marks) : Marks :=
  step (fun b => b == 0x2F) path marks

/-- The marked positions, and those behind a later slash. -/
def stepDirectories (path : List UInt8) (marks : Marks) : Marks :=
  either marks (stepSlash path (spread marks))

/-- Whether a byte lies in one of the ranges. -/
def inRanges (ranges : List (Char × Char)) (b : UInt8) : Bool :=
  (ranges.flatMap byteRanges).any fun range => decide (range.1 ≤ b) && decide (b ≤ range.2)

/-- The positions behind given bytes that stand at a marked position. -/
def stepBytes (path : List UInt8) (bytes : List UInt8) (marks : Marks) : Marks :=
  bytes.foldl (fun marks b => step (fun c => c == b) path marks) marks

mutual

/-- The positions behind what a token takes from a marked position on. -/
def Token.advance (path : List UInt8) : Token → Marks → Marks
  | .literal c, marks => stepBytes path (String.utf8EncodeChar c) marks
  | .anyByte, marks => step (fun _ => true) path marks
  | .anyBytes, marks => spread marks
  | .leading, marks => stepDirectories path marks
  | .trailing, marks => spread (stepSlash path marks)
  | .between, marks => stepDirectories path (stepSlash path marks)
  | .oneOf negated ranges, marks => step (fun b => inRanges ranges b != negated) path marks
  | .alternates branches, marks =>
    if areVoid branches then marks else advanceAny path branches marks

/-- The positions behind what the tokens of a branch take in turn. -/
def advanceAll (path : List UInt8) : List Token → Marks → Marks
  | [], marks => marks
  | token :: tokens, marks => advanceAll path tokens (token.advance path marks)

/-- The positions behind what one of several branches takes. Empty branches do not count. -/
def advanceAny (path : List UInt8) : List (List Token) → Marks → Marks
  | [], marks => marks.map fun _ => false
  | branch :: branches, marks =>
    let others := advanceAny path branches marks
    if isVoidBranch branch then others else either (advanceAll path branch marks) others

end

end Glob

/-- A pattern that has been read. -/
structure Glob where
  pattern : String
  tokens : List Glob.Token

namespace Glob

/-- Read a pattern. -/
def parse (pattern : String) : Except Fault Glob := do
  return ⟨pattern, ← readPattern pattern⟩

/-- Whether a path names a file. A path that ends by going up does not. -/
def namesFile (path : String) : Bool :=
  (Path.pieces path.toList).getLast? ≠ some ['.', '.']

/-- Whether a pattern describes a path. A doubled star alone describes every path. A pattern that
looks at the name of the file describes no path without one. -/
def isMatch (glob : Glob) (path : String) : Bool :=
  if (method glob.tokens).needsFileName && !namesFile path then false
  else
    match glob.tokens with
    | [.leading] => true
    | tokens => (advanceAll (bytes path) tokens (startMarks (bytes path))).getLast? == some true

/-- The message for a pattern that cannot be read. -/
def faultMessage (pattern : String) (fault : Fault) : String :=
  s!"error parsing glob '{pattern}': {fault.message}"

/-- A pattern of a set nests too deeply. -/
inductive DepthFault where
  /-- A pattern that is searched for by itself. -/
  | alone (expression : String)
  /-- The pattern of this number among those that are searched for together. -/
  | together (index : Nat)
deriving DecidableEq, Repr

/-- The sentence shown to the user. -/
def DepthFault.message : DepthFault → String
  | alone expression => s!"error parsing glob '{expression}': error parsing pattern 0"
  | together index => s!"error parsing pattern {index}"

/-- Whether a pattern nests too deeply to be searched for. -/
def isTooDeep (glob : Glob) : Bool :=
  decide (nestingLimit < depth glob.tokens)

/-- The patterns of a set can be searched for. Those that need no search may nest as they like, and
those for a last piece have nothing to nest: they are neither checked nor numbered. -/
def checkDepth (globs : List Glob) : Except DepthFault Unit := do
  let searched (kind : Method) : List Glob := globs.filter fun glob => method glob.tokens == kind
  if let some glob := (searched .extensionFirst).find? isTooDeep then
    throw (.alone (String.ofList (expression glob.tokens)))
  if let some index := (searched .search).findIdx? isTooDeep then throw (.together index)

end Glob

end CachedCalls
