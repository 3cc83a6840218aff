/-
# Names in use

The names visible in one source text. The table answers one question, whether a name is taken, and
lists its names in ascending order of their characters.
-/

import CachedCalls.Text.Word
import Std.Data.TreeSet

namespace CachedCalls

/-- A finite set of names. -/
structure SymbolTable where
  names : Std.TreeSet String

namespace SymbolTable

/-- The table without names. -/
def empty : SymbolTable :=
  ⟨∅⟩

/-- The table holding the given names. -/
def ofList (names : List String) : SymbolTable :=
  ⟨.ofList names⟩

/-- Add a name. -/
def insert (table : SymbolTable) (name : String) : SymbolTable :=
  ⟨table.names.insert name⟩

/-- Add several names. -/
def insertAll (table : SymbolTable) (names : List String) : SymbolTable :=
  names.foldl insert table

/-- Whether a name is taken. -/
def contains (table : SymbolTable) (name : String) : Bool :=
  table.names.contains name

/-- The names in ascending order. -/
def toList (table : SymbolTable) : List String :=
  table.names.toList

/-- Every identifier that stands as a whole word anywhere in a text, comments and literals
included, so that a name the text uses in any role counts as taken. -/
def scan (text : String) : SymbolTable :=
  empty.insertAll (Text.identifiers text)

end SymbolTable

end CachedCalls
