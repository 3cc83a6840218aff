/-
# Paths

A path is a text in which slashes separate components. Paths are compared and cut component by
component: repeated slashes and single dots do not count, except for a dot that begins a relative
path. Double dots are kept, because what they lead to depends on the files. What is cut off is cut
off the text of a path, and the rest stays as it is written.

A path is a text here, so paths whose bytes are no UTF-8 text are not among them.
-/

namespace CachedCalls.Path

/-- One component of a path. -/
inductive Component where
  | root
  | current
  | parent
  | name (text : String)
deriving DecidableEq, Repr

/-- The pieces of a character sequence between slashes; there is always at least one. -/
def pieces : List Char → List (List Char)
  | [] => [[]]
  | c :: cs =>
    if c = '/' then [] :: pieces cs
    else
      match pieces cs with
      | [] => [[c]]
      | piece :: rest => (c :: piece) :: rest

/-- Whether a path begins at the root. -/
def isAbsolute (path : String) : Bool :=
  path.toList.head? == some '/'

/-- The component a piece stands for inside a path, if it counts. -/
def inner? (piece : List Char) : Option Component :=
  if piece.isEmpty ∨ piece = ['.'] then none
  else if piece = ['.', '.'] then some .parent
  else some (.name (String.ofList piece))

/-- The components of a path. -/
def components (path : String) : List Component :=
  let pieces := pieces path.toList
  let inside := pieces.filterMap inner?
  if isAbsolute path then .root :: inside
  else if pieces.head? = some ['.'] then .current :: inside
  else inside

/-- A component as text. -/
def Component.text : Component → String
  | root => "/"
  | current => "."
  | parent => ".."
  | name text => text

/-- The path with the given components. -/
def ofComponents : List Component → String
  | .root :: rest => "/" ++ "/".intercalate (rest.map (·.text))
  | components => "/".intercalate (components.map (·.text))

/-- A path followed by another one. An absolute second path stands alone. -/
def join (path other : String) : String :=
  if isAbsolute other ∨ path.isEmpty then other
  else if path.toList.getLast? = some '/' then path ++ other
  else path ++ "/" ++ other

/-- A path as seen from a working directory. -/
def absolute (cwd path : String) : String :=
  if isAbsolute path then path else join cwd path

/-- The components behind a common beginning, if there is one. -/
def stripComponents? : List Component → List Component → Option (List Component)
  | path, [] => some path
  | a :: path, b :: root => if a = b then stripComponents? path root else none
  | [], _ :: _ => none

/-- A path without its single dots, repeated slashes and trailing slashes. -/
def clean (components : List Component) : String :=
  ofComponents (components.filter (· ≠ .current))

/-- The name at the end of a path, if a name stands there. -/
def fileName? (path : String) : Option String :=
  match (components path).getLast? with
  | some (.name text) => some text
  | _ => none

/-- What follows the last dot of a name, unless the dot is missing or begins the name. -/
def nameExtension? (name : String) : Option String :=
  let reversed := name.toList.reverse
  match reversed.dropWhile (· ≠ '.') with
  | [] | [_] => none
  | _ => some (String.ofList (reversed.takeWhile (· ≠ '.')).reverse)

/-- The extension of the file a path names. -/
def extension? (path : String) : Option String :=
  (fileName? path).bind nameExtension?

/-- What a path begins with in front of its pieces: the root, or the dot that begins a relative
path. -/
def beginning (path : String) : List Char :=
  if isAbsolute path then ['/']
  else if (pieces path.toList).head? = some ['.'] then ['.']
  else []

/-- Pieces, the last one first, without those at the end of the path that do not count. -/
def trimmed (reversed : List (List Char)) : List (List Char) :=
  reversed.dropWhile fun piece => (inner? piece).isNone

/-- The path with a beginning and pieces behind it, the last piece first. What does not count at its
end is left out. -/
def slice (beginning : List Char) (reversed : List (List Char)) : String :=
  String.ofList (beginning ++ ['/'].intercalate (trimmed reversed).reverse)

/-- The paths above the one with a beginning and pieces behind it, the last piece first. Each ends
in front of a piece that counts, and the last one in front of the dot that begins a relative
path. -/
def slicesAbove (beginning : List Char) : (reversed : List (List Char)) → List String
  | [] => if beginning = ['.'] then [""] else []
  | piece :: rest =>
    if (inner? piece).isNone then slicesAbove beginning rest
    else slice beginning rest :: slicesAbove beginning rest

/-- All paths above a path, nearest first. -/
def above (path : String) : List String :=
  let beginning := beginning path
  slicesAbove beginning (pieces (path.toList.drop beginning.length)).reverse

/-- The path of the directory that holds a path's last component. There is none above the root. -/
def parent? (path : String) : Option String :=
  (above path).head?

/-- A path and all paths above it, nearest first. -/
def ancestors (path : String) : List String :=
  path :: above path

-- What stands between components stays as it is written.
example : ancestors "/a//b/./c/" = ["/a//b/./c/", "/a//b", "/a", "/"] ∧
    ancestors "./a" = ["./a", ".", ""] := by
  decide

/-- Place of a component in the order of its kinds. -/
def Component.rank : Component → Nat
  | root => 0
  | current => 1
  | parent => 2
  | name _ => 3

/-- Order of components: by kind, and names by their characters. -/
def Component.order : Component → Component → Ordering
  | name text, name other => compare text other
  | component, other => compare component.rank other.rank

/-- Order of paths: component by component. -/
def precedes (path other : String) : Bool :=
  (List.compareLex Component.order (components path) (components other)).isLE

-- As texts they would stand the other way round.
example : precedes "a/b" "a-b" = true ∧ precedes "a-b" "a/b" = false := by decide

/-- Paths in their order. -/
def sort (paths : List String) : List String :=
  paths.mergeSort precedes

/-- File extensions of C++ sources and headers. -/
def sourceExtensions : List String :=
  ["cpp", "cc", "cxx", "c++", "hpp", "hh", "hxx", "h", "ipp"]

/-- Whether an extension belongs to a source file. Only ASCII letters are compared without case. -/
def isSourceExtension (extension : String) : Bool :=
  sourceExtensions.contains (extension.map Char.toLower)

/-- Whether a path names a source file. -/
def isSource (path : String) : Bool :=
  (extension? path).any isSourceExtension

end CachedCalls.Path
