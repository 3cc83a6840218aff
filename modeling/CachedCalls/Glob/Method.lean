/-
# What a pattern looks at

Most patterns are decided without a search: by the whole path, by one of its ends, or by the name of
the file at its end. The form of the pattern tells which; the simplest method that fits is taken.
-/

import CachedCalls.Glob.Pattern

namespace CachedCalls.Glob

/-- How a path is compared with a pattern. -/
inductive Method where
  /-- As a whole, or at one of its ends. -/
  | ends
  /-- By the name of the file, or by the extension in it. -/
  | fileName
  /-- By a search, for which the extension in the name of the file must be right. -/
  | extensionFirst
  /-- By a search of its last piece alone, whether or not that piece names a file. -/
  | lastPiece
  /-- By a search of the whole path. -/
  | search
deriving DecidableEq, Repr

namespace Method

/-- Whether the method can accept only paths that name a file. -/
def needsFileName : Method → Bool
  | fileName | extensionFirst => true
  | ends | lastPiece | search => false

end Method

/-- The characters of tokens that stand for themselves, if all of them do. -/
def literals? : List Token → Option (List Char)
  | [] => some []
  | .literal c :: rest => (literals? rest).map (c :: ·)
  | _ :: _ => none

/-- Whether tokens all stand for themselves, by characters other than the given ones. -/
def areLiterals (without : List Char) (tokens : List Token) : Bool :=
  (literals? tokens).any fun cs => cs.all (!without.contains ·)

/-- Whether a pattern asks for a file of one name in any directory. -/
def asksName : List Token → Bool
  | .leading :: first :: rest => areLiterals ['/'] (first :: rest)
  | _ => false

/-- Whether a pattern asks for an extension and nothing else. -/
def asksExtension : List Token → Bool
  | .leading :: .anyBytes :: .literal '.' :: rest => areLiterals ['.', '/'] rest
  | .anyBytes :: .literal '.' :: rest => areLiterals ['.', '/'] rest
  | _ => false

/-- Whether a pattern asks for a beginning of the path and nothing else. -/
def asksStart (tokens : List Token) : Bool :=
  match tokens.getLast? with
  | some .anyBytes => 1 < tokens.length && areLiterals [] tokens.dropLast
  | some .trailing => areLiterals [] tokens.dropLast
  | _ => false

/-- Whether tokens ask for an end of the path behind anything: more than a slash alone. -/
def asksTail (tokens : List Token) : Bool :=
  (literals? tokens).any fun cs => cs ≠ [] && cs ≠ ['/']

/-- Whether a pattern asks for an end of the path and nothing else. -/
def asksEnd : List Token → Bool
  | .leading :: .literal _ :: rest => areLiterals [] rest
  | .leading :: .anyBytes :: rest => asksTail rest
  | .anyBytes :: rest => asksTail rest
  | _ => false

/-- Whether tokens, given last first, end with a dot and more characters of a name. -/
def endsInExtension : List Token → Bool
  | .literal c :: rest => c == '.' || (c != '/' && endsInExtension rest)
  | _ => false

/-- Whether a token takes one character of a piece: never a slash, and never an unknown number of
characters. -/
def Token.staysInPiece : Token → Bool
  | .literal c => c != '/'
  | .oneOf negated ranges =>
    ranges.any (fun range => decide (range.1 ≤ '/') && decide ('/' ≤ range.2)) == negated
  | .anyByte | .anyBytes | .leading | .trailing | .between | .alternates _ => false

/-- Whether a pattern asks for a last piece behind any directories. Its tokens cannot take a slash,
so what they take begins where the last piece begins. -/
def asksLastPiece : List Token → Bool
  | .leading :: first :: rest => (first :: rest).all Token.staysInPiece
  | _ => false

/-- How paths are compared with the pattern of the given tokens. -/
def method (tokens : List Token) : Method :=
  if asksName tokens then .fileName
  else if !tokens.isEmpty && areLiterals [] tokens then .ends
  else if asksExtension tokens then .fileName
  else if asksStart tokens || asksEnd tokens then .ends
  else if endsInExtension tokens.reverse then .extensionFirst
  else if asksLastPiece tokens then .lastPiece
  else .search

end CachedCalls.Glob
