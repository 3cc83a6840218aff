/-
# How deeply a pattern nests

A pattern that is searched for becomes a regular expression, and the parts of an expression may be
nested only to a certain depth: repetitions, classes, groups, choices and sequences count one level
each. The depth is that of the expression, and the expression itself is shown when it is too deep.
-/

import CachedCalls.Glob.Pattern
import CachedCalls.Text.Hex

namespace CachedCalls.Glob

/-- How many levels an expression may have. -/
def nestingLimit : Nat :=
  250

/-- The extent of a part of an expression. -/
structure Extent where
  /-- How many parts it adds to the sequence it stands in. -/
  width : Nat
  /-- How many levels the deepest of them has. -/
  depth : Nat
deriving DecidableEq, Repr

namespace Extent

/-- The extent of nothing. -/
def zero : Extent :=
  ⟨0, 0⟩

/-- The extent of one part behind another. -/
def append (first second : Extent) : Extent :=
  ⟨first.width + second.width, max first.depth second.depth⟩

/-- How many levels something has by itself: a sequence of several parts is a level of its own. -/
def levels (extent : Extent) : Nat :=
  if 1 < extent.width then extent.depth + 1 else extent.depth

/-- The extent of a group: a group is a level, and so is the choice between several branches. Empty
branches do not count, and a group without others is nothing. -/
def group (branches : List Extent) : Extent :=
  match branches.filter (·.width ≠ 0) with
  | [] => zero
  | [branch] => ⟨1, branch.levels + 1⟩
  | branches => ⟨1, branches.foldl (fun depth branch => max depth branch.levels) 0 + 2⟩

end Extent

mutual

/-- The extent of a token. -/
def Token.extent : Token → Extent
  | .literal c => ⟨c.utf8Size, 0⟩
  | .anyByte => ⟨1, 0⟩
  | .anyBytes => ⟨1, 1⟩
  | .leading | .between => ⟨1, 4⟩
  | .trailing => ⟨2, 1⟩
  | .oneOf _ ranges => ⟨1, if 1 < (ranges.flatMap byteRanges).length then 2 else 1⟩
  | .alternates branches => .group (branchExtents branches)

/-- The extent of tokens in turn. -/
def extent : List Token → Extent
  | [] => .zero
  | token :: tokens => token.extent.append (extent tokens)

/-- The extents of the branches of a group. -/
def branchExtents : List (List Token) → List Extent
  | [] => []
  | branch :: branches => extent branch :: branchExtents branches

end

/-- How many levels the expression of a whole pattern has. It is a sequence in any case, because it
begins and ends with an anchor. -/
def depth (tokens : List Token) : Nat :=
  match tokens with
  | [.leading] => 2
  | tokens => (extent tokens).depth + 1

/-- Characters that mean something in an expression unless they are escaped. -/
def specialChars : List Char :=
  ['\\', '.', '+', '*', '?', '(', ')', '|', '[', ']', '\x7b', '\x7d', '^', '$', '#', '&', '-', '~']

/-- A byte in an expression. -/
def byteExpression (b : UInt8) : List Char :=
  let c := Char.ofNat b.toNat
  if 0x80 ≤ b then ['\\', 'x', Text.hexChar (b.toNat / 16), Text.hexChar (b.toNat % 16)]
  else if specialChars.contains c then ['\\', c]
  else [c]

/-- A character in an expression, byte by byte. -/
def charExpression (c : Char) : List Char :=
  (String.utf8EncodeChar c).flatMap byteExpression

/-- A range of characters in a class. -/
def rangeExpression (range : Char × Char) : List Char :=
  if range.1 = range.2 then charExpression range.1
  else charExpression range.1 ++ '-' :: charExpression range.2

mutual

/-- The expression of a token. -/
def Token.expression : Token → List Char
  | .literal c => charExpression c
  | .anyByte => ['.']
  | .anyBytes => ".*".toList
  | .leading => "(?:/?|.*/)".toList
  | .trailing => "/.*".toList
  | .between => "(?:/|/.*/)".toList
  | .oneOf negated ranges =>
    '[' :: (if negated then ['^'] else []) ++ ranges.flatMap rangeExpression ++ [']']
  | .alternates branches =>
    match (branchExpressions branches).filter (!·.isEmpty) with
    | [] => []
    | parts => "(?:".toList ++ ['|'].intercalate parts ++ [')']

/-- The expression of tokens in turn. -/
def tokensExpression : List Token → List Char
  | [] => []
  | token :: tokens => token.expression ++ tokensExpression tokens

/-- The expressions of the branches of a group. -/
def branchExpressions : List (List Token) → List (List Char)
  | [] => []
  | branch :: branches => tokensExpression branch :: branchExpressions branches

end

/-- The expression of a whole pattern. -/
def expression (tokens : List Token) : List Char :=
  let inner :=
    match tokens with
    | [.leading] => ".*".toList
    | tokens => tokensExpression tokens
  "(?-u)^".toList ++ inner ++ ['$']

end CachedCalls.Glob
