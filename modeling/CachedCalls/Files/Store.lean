/-
# Files in memory

A store is a whole file tree with a working directory. Paths are resolved the way an operating
system does: component by component from the root or the working directory, through symbolic links,
with bounds on the number of links and on the length of names and paths. Nothing is normalised
before the tree has been consulted.

The name of an entry is a text, so an entry whose name is no UTF-8 text has no place in a store. A
store knows no permissions either: what a path leads to can be read if it is a file that holds text,
and written if it is a file.
-/

import CachedCalls.Files.Path
import CachedCalls.Text.Bytes

namespace CachedCalls

/-- What a file holds: text, or bytes that are no UTF-8 text. -/
inductive Contents where
  | text (text : String)
  | binary (bytes : List UInt8)
deriving DecidableEq

namespace Contents

/-- The contents of a file with the given bytes. -/
def ofBytes (bytes : List UInt8) : Contents :=
  match String.fromUTF8? ⟨bytes.toArray⟩ with
  | some decoded => .text decoded
  | none => .binary bytes

end Contents

/-- A file, a directory with its named entries, or a symbolic link. -/
inductive Entry where
  | file (contents : Contents)
  | directory (entries : List (String × Entry))
  | link (target : String)

/-- Why a file cannot be read or written. -/
inductive AccessFault where
  | notFound
  | notADirectory
  | isADirectory
  | notText
  | tooManyLinks
  | nameTooLong
  /-- The path holds the character that ends a text for the system. -/
  | zeroInPath
deriving DecidableEq, Repr

namespace AccessFault

/-- The sentence shown to the user. -/
def message : AccessFault → String
  | notFound => "No such file or directory (os error 2)"
  | notADirectory => "Not a directory (os error 20)"
  | isADirectory => "Is a directory (os error 21)"
  | notText => "stream did not contain valid UTF-8"
  | tooManyLinks => "Too many levels of symbolic links (os error 40)"
  | nameTooLong => "File name too long (os error 36)"
  | zeroInPath => "file name contained an unexpected NUL byte"

end AccessFault

namespace Entry

/-- The entries of a directory; other entries have none. -/
def entries : Entry → List (String × Entry)
  | directory entries => entries
  | file _ | link _ => []

/-- The entry of a directory under the given name. -/
def child? (entry : Entry) (name : String) : Option Entry :=
  entry.entries.lookup name

/-- The entry below the given names, without following links. -/
def get? : List String → Entry → Option Entry
  | [], entry => some entry
  | name :: names, entry => (entry.child? name).bind (get? names)

/-- Named entries with one of them replaced, or added at the end. -/
def setNamed (name : String) (new : Entry) : List (String × Entry) → List (String × Entry)
  | [] => [(name, new)]
  | (other, entry) :: rest =>
    if other = name then (name, new) :: rest else (other, entry) :: setNamed name new rest

/-- A tree with a new entry below the given names; directories on the way are made as needed. -/
def setAt (entry : Entry) : (names : List String) → (new : Entry) → Entry
  | [], new => new
  | name :: names, new =>
    directory (setNamed name (setAt ((entry.child? name).getD (directory [])) names new)
      entry.entries)

/-- A tree without the entry below the given names. -/
def removeAt : List String → Entry → Entry
  | [], entry => entry
  | [name], entry => directory (entry.entries.filter (·.1 ≠ name))
  | name :: names, entry =>
    match entry.child? name with
    | none => entry
    | some inner => directory (setNamed name (removeAt names inner) entry.entries)

/-- Where a path leads. -/
inductive Place where
  /-- To an entry that is not a link. -/
  | found (names : List String) (entry : Entry)
  /-- To a name that is free in an existing directory. -/
  | absent (names : List String)

/-- The largest number of bytes in the name of an entry. -/
def nameLimit : Nat :=
  255

/-- Follow the pieces of a path from the directory `here`, through at most `links` links. -/
def locate (root : Entry) (links : Nat) (here : List String) (pieces : List String) :
    Except AccessFault Place :=
  match pieces with
  | [] =>
    match root.get? here with
    | some entry => .ok (.found here entry)
    | none => .error .notFound
  | piece :: rest =>
    if piece = "" ∨ piece = "." then locate root links here rest
    else if piece = ".." then locate root links here.dropLast rest
    else if nameLimit < Text.size piece then .error .nameTooLong
    else
      match root.get? (here ++ [piece]) with
      | none => if rest.isEmpty then .ok (.absent (here ++ [piece])) else .error .notFound
      | some (file contents) =>
        if rest.isEmpty then .ok (.found (here ++ [piece]) (file contents))
        else .error .notADirectory
      | some (directory _) => locate root links (here ++ [piece]) rest
      | some (link target) =>
        match links with
        | 0 => .error .tooManyLinks
        | links + 1 =>
          locate root links (if Path.isAbsolute target then [] else here)
            ((Path.pieces target.toList).map String.ofList ++ rest)
termination_by (links, pieces.length)

/-- Make the directories that are missing along the pieces of a path, seen from the directory
`here`. Returns the tree and the names of the last directory. -/
def makeWay (root : Entry) (links : Nat) (here : List String) (pieces : List String) :
    Except AccessFault (Entry × List String) :=
  match pieces with
  | [] => .ok (root, here)
  | piece :: rest =>
    if piece = "" ∨ piece = "." then makeWay root links here rest
    else if piece = ".." then makeWay root links here.dropLast rest
    else if nameLimit < Text.size piece then .error .nameTooLong
    else
      match root.get? (here ++ [piece]) with
      | none => makeWay (root.setAt (here ++ [piece]) (directory [])) links (here ++ [piece]) rest
      | some (file _) => .error .notADirectory
      | some (directory _) => makeWay root links (here ++ [piece]) rest
      | some (link target) =>
        match links with
        | 0 => .error .tooManyLinks
        | links + 1 =>
          makeWay root links (if Path.isAbsolute target then [] else here)
            ((Path.pieces target.toList).map String.ofList ++ rest)
termination_by (links, pieces.length)

end Entry

/-- A file tree with a working directory. -/
structure Store where
  root : Entry
  /-- The absolute path of the working directory. -/
  cwd : String

namespace Store

/-- How many links a path may go through. -/
def linkLimit : Nat :=
  40

/-- The largest number of bytes in a path. -/
def pathLimit : Nat :=
  4095

/-- The pieces of a path as seen from the working directory. -/
def pieces (store : Store) (path : String) : List String :=
  (Path.pieces (Path.absolute store.cwd path).toList).map String.ofList

/-- Where a path leads. The empty path leads nowhere. -/
def locate (store : Store) (path : String) : Except AccessFault Entry.Place :=
  if path.toList.contains '\x00' then .error .zeroInPath
  else if path.isEmpty then .error .notFound
  else if pathLimit < Text.size path then .error .nameTooLong
  else store.root.locate linkLimit [] (store.pieces path)

/-- The entry a path leads to. -/
def entry? (store : Store) (path : String) : Option Entry :=
  match store.locate path with
  | .ok (.found _ entry) => some entry
  | .ok (.absent _) | .error _ => none

/-- Whether a path leads to an entry. -/
def exists? (store : Store) (path : String) : Bool :=
  (store.entry? path).isSome

/-- Whether a path leads to a file. -/
def isFile (store : Store) (path : String) : Bool :=
  match store.entry? path with
  | some (.file _) => true
  | _ => false

/-- The text of the file a path leads to. -/
def read (store : Store) (path : String) : Except AccessFault String := do
  match ← store.locate path with
  | .found _ (.file (.text text)) => return text
  | .found _ (.file (.binary _)) => throw .notText
  | .found _ _ => throw .isADirectory
  | .absent _ => throw .notFound

/-- The store after saving contents in the file a path leads to, which is made if its directory
exists. -/
def save (store : Store) (path : String) (contents : Contents) : Except AccessFault Store := do
  let saved (names : List String) : Store :=
    { store with root := store.root.setAt names (.file contents) }
  match ← store.locate path with
  | .found names (.file _) => return saved names
  | .found _ _ => throw .isADirectory
  | .absent names => return saved names

/-- The store after writing a text to the file a path leads to. -/
def write (store : Store) (path text : String) : Except AccessFault Store :=
  store.save path (.text text)

/-- The store with all directories on the way along a path, and the names of the last one. -/
def makeWay (store : Store) (path : String) : Except AccessFault (Store × List String) := do
  let (root, names) ← store.root.makeWay linkLimit [] (store.pieces path)
  return ({ store with root := root }, names)

/-- The path of the directory that holds what a path names. -/
def directoryOf (path : String) : String :=
  Path.join "." ((Path.parent? path).getD path)

/-- The store after saving contents in the file a path leads to. Directories are made as needed. -/
def put (store : Store) (path : String) (contents : Contents) : Except AccessFault Store := do
  let (store, _) ← store.makeWay (directoryOf path)
  store.save path contents

/-- The store with a new link where a path names a free place. Directories are made as needed. -/
def putLink (store : Store) (path target : String) : Except AccessFault Store := do
  let (store, names) ← store.makeWay (directoryOf path)
  match Path.fileName? path with
  | none => throw .isADirectory
  | some name => return { store with root := store.root.setAt (names ++ [name]) (.link target) }

/-- The store without the entry that a path names. A link there is removed itself, not what it leads
to. -/
def remove (store : Store) (path : String) : Store :=
  match Path.fileName? path, store.locate (directoryOf path) with
  | some name, .ok (.found names (.directory _)) =>
    { store with root := store.root.removeAt (names ++ [name]) }
  | _, _ => store

end Store

end CachedCalls
