import StateWalk.Number.Binary64

/-!
# Canonical trees

A canonical tree is what is left of a value once everything without meaning for its identity is
forgotten. It has the shape of JSON data; objects keep the order of their members, and only
printing sorts them.
-/

namespace StateWalk

inductive Canonical where
  | null
  | bool (b : Bool)
  | int (n : Int)
  | float (x : Binary64)
  | text (s : String)
  | array (items : List Canonical)
  | object (members : List (String × Canonical))
  deriving Inhabited

end StateWalk
