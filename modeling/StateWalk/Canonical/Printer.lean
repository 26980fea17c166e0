import StateWalk.Canonical.Basic
import StateWalk.Number.Layout
import StateWalk.Text.Hex

/-!
# Canonical text

`Canonical.render` prints a tree as compact JSON: no blanks, the members of an object sorted by
name in the order of code points, and in a text only the quotation mark, the backslash and the
control characters below the space escaped.

`sortByText` puts trees in the order of their texts; it is how the items of a collection without
an order of its own are listed.
-/

namespace StateWalk.Canonical

/-- A character inside a text. -/
def escaped (c : Char) : List Char :=
  if c = '"' ∨ c = '\\' then ['\\', c]
  else if c = '\n' then ['\\', 'n']
  else if c = '\r' then ['\\', 'r']
  else if c = '\t' then ['\\', 't']
  else if c = '\x08' then ['\\', 'b']
  else if c = '\x0c' then ['\\', 'f']
  else if c.toNat < 0x20 then '\\' :: 'u' :: Text.hexDigits 4 c.toNat
  else [c]

def renderText (s : String) : List Char :=
  '"' :: (s.toList.flatMap escaped ++ ['"'])

def renderInt (n : Int) : List Char :=
  if n < 0 then '-' :: n.natAbs.repr.toList else n.natAbs.repr.toList

/-- Pairs in the order of their names; pairs of one name keep theirs. -/
def sortByName {α : Type} (pairs : List (String × α)) : List (String × α) :=
  pairs.mergeSort fun a b => decide (a.1 ≤ b.1)

/-- A member whose value is printed already. -/
def renderMember (member : String × List Char) : List Char :=
  renderText member.1 ++ ':' :: member.2

mutual

def render : Canonical → List Char
  | null => "null".toList
  | bool true => "true".toList
  | bool false => "false".toList
  | int n => renderInt n
  | float x => x.write Layout.keys
  | text s => renderText s
  | array items => '[' :: (List.intercalate [','] (renderAll items) ++ [']'])
  | object members =>
    '\x7b' :: (List.intercalate [','] ((sortByName (renderMembers members)).map renderMember) ++
      ['\x7d'])

def renderAll : List Canonical → List (List Char)
  | [] => []
  | c :: cs => render c :: renderAll cs

/-- Print the values of the members. -/
def renderMembers : List (String × Canonical) → List (String × List Char)
  | [] => []
  | (name, c) :: ms => (name, render c) :: renderMembers ms

end

def toText (c : Canonical) : String := String.ofList c.render

/-- Trees in the order of their texts. -/
def sortByText (cs : List Canonical) : List Canonical :=
  (sortByName (cs.map fun c => (c.toText, c))).map Prod.snd

theorem renderAll_eq_map (cs : List Canonical) : renderAll cs = cs.map render := by
  induction cs with
  | nil => rfl
  | cons c cs ih => simp [renderAll, ih]

theorem renderMembers_eq_map (ms : List (String × Canonical)) :
    renderMembers ms = ms.map fun m => (m.1, m.2.render) := by
  induction ms with
  | nil => rfl
  | cons m ms ih => simp [renderMembers, ih]

theorem sortByName_perm {α : Type} (pairs : List (String × α)) : (sortByName pairs).Perm pairs :=
  List.mergeSort_perm _ _

theorem pairwise_sortByName {α : Type} (pairs : List (String × α)) :
    (sortByName pairs).Pairwise fun a b => a.1 ≤ b.1 := by
  refine (List.pairwise_mergeSort ?_ ?_ pairs).imp fun h => of_decide_eq_true h
  · exact fun a b c h h' => decide_eq_true
      (String.le_trans (of_decide_eq_true h) (of_decide_eq_true h'))
  · exact fun a b => by simpa using String.le_total a.1 b.1

end StateWalk.Canonical
