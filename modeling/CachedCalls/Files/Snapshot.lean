/-
# Snapshots of files

A snapshot is a JSON document that lists files with their contents, and syntax trees with the source
texts they belong to. It turns into a store and a parser; what a run changed in the store can be
told afterwards by comparing it with the one before.
-/

import CachedCalls.Project
import CachedCalls.Tree.Json

namespace CachedCalls

namespace Store

/-- A store with one more file, link or directory of a snapshot. -/
def addFile? (store : Store) (file : Json) : Option Store := do
  let path ← file.textField? "path"
  if let some text := file.textField? "text" then (store.put path (.text text)).toOption
  else if let some bytes := file.listField? "bytes" Json.nat? then
    (store.put path (.ofBytes (bytes.map UInt8.ofNat))).toOption
  else if let some target := file.textField? "symlink" then (store.putLink path target).toOption
  else (store.makeWay path).toOption.map Prod.fst

/-- The store with the files of a snapshot and the given working directory. -/
def ofSnapshot? (cwd : String) (snapshot : Json) : Option Store := do
  let empty : Store := ⟨.directory [], cwd⟩
  let (start, _) ← (empty.makeWay cwd).toOption
  (← snapshot.listField? "files" some).foldlM addFile? start

end Store

/-- The parser that knows the syntax trees of a snapshot. Any other text has an empty tree. -/
def Parser.ofSnapshot? (snapshot : Json) : Option Parser := do
  let trees ← snapshot.listField? "trees" fun entry => do
    return (← entry.textField? "source", ← Tree.ofJson? (← entry.field? "tree"))
  let unknown : Tree := .node ⟨"unit", none, Span.empty 0, true, false⟩ []
  return fun source => (trees.lookup source).getD unknown

namespace Entry

mutual

/-- All files at an entry, with their paths. -/
def files (path : String) : Entry → List (String × Contents)
  | file contents => [(path, contents)]
  | directory entries => filesIn path entries
  | link _ => []

/-- All files among the entries of a directory, with their paths. -/
def filesIn (path : String) : List (String × Entry) → List (String × Contents)
  | [] => []
  | (name, entry) :: rest => files (path ++ "/" ++ name) entry ++ filesIn path rest

end

end Entry

namespace Store

/-- The texts of files that were changed or made since an earlier state, with their paths. -/
def changesSince (store earlier : Store) : List (String × String) :=
  let before := earlier.root.files ""
  (store.root.files "").filterMap fun
    | (path, .text text) =>
      if before.lookup path = some (.text text) then none else some (path, text)
    | (_, .binary _) => none

end Store

end CachedCalls
