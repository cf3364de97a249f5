/-
JSON values.

A number is a whole number or a double-precision one, and the two never mix: `1` and `1.0` are
different values with different texts. The members of an object are kept in the order they are
written in; an object read from a text has them sorted, each key once.
-/
import TransformCache.Keyed
import TransformCache.Number.Shortest

namespace TransformCache

/-- A JSON value. -/
inductive Json where
  | null
  | bool (value : Bool)
  | int (value : Int)
  | float (value : Binary64)
  | string (value : String)
  | array (items : List Json)
  | object (members : List (String × Json))
  deriving Inhabited, Repr

end TransformCache
