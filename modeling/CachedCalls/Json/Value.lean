/-
# JSON values

A value keeps the members of an object in the order of the text and with repetitions, because both
show in what a reader of typed data reports. Whole numbers that fit 64 bits are exact; all others
are binary fractions.
-/

namespace CachedCalls

/-- A number as it is held after reading. -/
inductive Json.Number where
  | whole (value : Int)
  | fraction (value : Float)

/-- A JSON value. -/
inductive Json where
  | null
  | bool (value : Bool)
  | number (value : Json.Number)
  | string (value : String)
  | array (elements : List Json)
  | object (members : List (String × Json))

end CachedCalls
