/-!
# Dotted names

A dotted name joins the keys of a path with points. `splitAtDots` undoes the joining, and
`joined_splitAtDots` says that it loses nothing.
-/

namespace StateWalk.Text

/-- The parts between the points; a text without a point is one part. -/
def splitAtDots : List Char → List (List Char)
  | [] => [[]]
  | c :: cs =>
    if c = '.' then [] :: splitAtDots cs
    else
      match splitAtDots cs with
      | [] => [[c]]
      | part :: parts => (c :: part) :: parts

def joined (parts : List (List Char)) : List Char := List.intercalate ['.'] parts

/-- The keys of a path, joined with points. -/
def dotted (keys : List String) : String := ".".intercalate keys

theorem splitAtDots_ne_nil (cs : List Char) : splitAtDots cs ≠ [] := by
  cases cs with
  | nil => simp [splitAtDots]
  | cons c cs =>
    simp only [splitAtDots]
    split
    · simp
    · split <;> simp

theorem joined_splitAtDots (cs : List Char) : joined (splitAtDots cs) = cs := by
  induction cs with
  | nil => rfl
  | cons c cs ih =>
    have ne := splitAtDots_ne_nil cs
    simp only [splitAtDots]
    cases h : splitAtDots cs with
    | nil => exact absurd h ne
    | cons part parts =>
      rw [h] at ih
      split
      · subst_vars
        simp [joined, List.intercalate, List.intersperse]
      · subst_vars
        cases parts <;> simp [joined, List.intercalate, List.intersperse]

end StateWalk.Text
