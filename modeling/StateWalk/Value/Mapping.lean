import StateWalk.Value.Equality
import StateWalk.Value.Key

/-!
# Mappings

A mapping is a list of entries in the order in which their keys were first put. `find?`, `put` and
`without` read, set and drop the entry of a key; `ofPairs` and `merge` put several entries one
after the other, so that a repeated key keeps its first place and its last value. `lookup` and
`build` refuse keys that cannot be keys first.

Text-keyed lists of any values, which hold settings and definitions, have the same operations under
`Keyed`.
-/

namespace StateWalk

/-- The entries of a mapping. -/
abbrev Entries := List (Value × Value)

namespace Entries

def find? (es : Entries) (key : Value) : Option Value :=
  (List.find? (fun e => key.sameKey e.1) es).map Prod.snd

/-- Set the value of `key`: in place if it has one, else at the end. -/
def put : Entries → Value → Value → Entries
  | [], key, v => [(key, v)]
  | (k, w) :: es, key, v => if key.sameKey k then (k, v) :: es else (k, w) :: put es key v

def without (es : Entries) (key : Value) : Entries :=
  es.filter fun e => !key.sameKey e.1

/-- `es` with the entries of `updates` put one after the other. -/
def merge (es updates : Entries) : Entries :=
  updates.foldl (fun es e => put es e.1 e.2) es

def ofPairs (pairs : Entries) : Entries := merge [] pairs

/-- The value of `key`, which must be one that can be a key. -/
def lookup (es : Entries) (key : Value) : Except Fault (Option Value) := do
  key.checkKey
  return es.find? key

/-- A mapping of these pairs, whose keys must be such that can be keys. -/
def build (pairs : Entries) : Except Fault Entries := do
  pairs.forM fun e => e.1.checkKey
  return ofPairs pairs

end Entries

/-- The items of a set of these values, which must be such that can be keys. A set of integers lists
them in ascending order, any other set in the order in which they were put. -/
def Value.distinct (vs : List Value) : Except Fault (List Value) := do
  let items := (← Entries.build (vs.map fun v => (v, .null))).map Prod.fst
  if items.all fun v => v.int?.isSome then
    return items.mergeSort fun v w => decide (v.int?.getD 0 ≤ w.int?.getD 0)
  else return items

namespace Keyed

variable {α : Type}

def find? (es : List (String × α)) (key : String) : Option α :=
  (List.find? (fun e => e.1 == key) es).map Prod.snd

/-- Set the value of `key`: in place if it has one, else at the end. -/
def put : List (String × α) → String → α → List (String × α)
  | [], key, a => [(key, a)]
  | (k, b) :: es, key, a => if k = key then (k, a) :: es else (k, b) :: put es key a

def ofPairs (pairs : List (String × α)) : List (String × α) :=
  pairs.foldl (fun es e => put es e.1 e.2) []

/-- The value of a key that may be any value; only texts are among the keys. -/
def lookup (es : List (String × α)) (key : Value) : Except Fault (Option α) := do
  key.checkKey
  return key.text?.bind (find? es)

end Keyed

end StateWalk
