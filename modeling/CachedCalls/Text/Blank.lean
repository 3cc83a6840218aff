/-
# Blank characters and trimming

Blank means the Unicode property White_Space. It includes the line and paragraph separators and the
no-break spaces, and it leaves out the zero-width characters.
-/

namespace CachedCalls.Text

/-- Whether a character has the property White_Space. -/
def isBlank (c : Char) : Bool :=
  let n := c.toNat
  (decide (0x09 ≤ n) && decide (n ≤ 0x0D)) || n == 0x20 || n == 0x85 || n == 0xA0 || n == 0x1680 ||
    (decide (0x2000 ≤ n) && decide (n ≤ 0x200A)) || n == 0x2028 || n == 0x2029 || n == 0x202F ||
    n == 0x205F || n == 0x3000

/-- A character sequence without its leading blanks. -/
def trimLeft (cs : List Char) : List Char :=
  cs.dropWhile isBlank

/-- A character sequence without its trailing blanks. -/
def trimRight (cs : List Char) : List Char :=
  (cs.reverse.dropWhile isBlank).reverse

/-- A text without its trailing blanks. -/
def trimEnd (text : String) : String :=
  String.ofList (trimRight text.toList)

/-- A text without its leading and trailing blanks. -/
def trim (text : String) : String :=
  String.ofList (trimRight (trimLeft text.toList))

end CachedCalls.Text
