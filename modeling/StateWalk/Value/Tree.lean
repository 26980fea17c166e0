import StateWalk.Value.Key

/-!
# Canonical trees as values

`canonicalize` turns a value into the tree that stands for it: one of texts, numbers, lists and mappings of plain
texts, whose lists are in an order that does not depend on how the value came about. It does to the parts of a
value what `canonical` does to their forms, so the tree has the form of the value. Only where a form forgets
that a text or an integer belongs to an enumeration, the tree keeps it.

A value without a key has no tree either.
-/

namespace StateWalk.Value

/-- Values in the order of their canonical texts. -/
def sortByText (vs : List Value) : List Value :=
  (Canonical.sortByName (vs.map fun v => (v.canonicalText, v))).map Prod.snd

/-- The mapping of the names of fields to their values. -/
def ofFields (fields : List (String × Value)) : Value := mapping (fields.map fun f => (text f.1, f.2))

/-- The tree of a mapping, from the trees of its entries; `plain` says that every key is a plain
text. -/
def mappingTree (plain : Bool) (entries : List (Value × Value)) : Value :=
  if plain then mapping entries
  else ofFields [(mappingTag, list (sortByText (entries.map fun e => list [e.1, e.2])))]

mutual

/-- The tree of a value. -/
def tree : Value → Value
  | member _ v => tree v
  | bytes bs => text (String.ofList (Text.quotedBytes bs))
  | date s => text s
  | list vs | tuple vs => list (treeAll vs)
  | set vs | frozenSet vs => list (sortByText (treeAll vs))
  | mapping es => mappingTree (es.all fun e => e.1.isPlainText) (treeEntries es)
  | record _ fs uncompared => ofFields ((treeFields fs).filter fun f => !uncompared.contains f.1)
  | model _ _ _ _ (.ok dumped) => tree dumped
  | model _ _ _ _ (.error _) => null
  | callable naming m n _ => text (callableName naming.className m n)
  | other naming => text naming.shown
  | event t p =>
    ofFields
      [("type", tree t), ("payload", mappingTree (p.all fun e => e.1.isPlainText) (treeEntries p))]
  | step s e => ofFields [("state", tree s), ("event", tree e)]
  | snapshot v c _ => ofFields [("value", tree v), ("context", tree c)]
  | v => v

def treeAll : List Value → List Value
  | [] => []
  | v :: vs => tree v :: treeAll vs

/-- The trees of the keys and values of a mapping. -/
def treeEntries : List (Value × Value) → List (Value × Value)
  | [] => []
  | (k, v) :: es => (tree k, tree v) :: treeEntries es

def treeFields : List (String × Value) → List (String × Value)
  | [] => []
  | (name, v) :: fs => (name, tree v) :: treeFields fs

end

/-- The canonical tree of a value. -/
def canonicalize (v : Value) : Except Fault Value :=
  match v.failure? with
  | none => .ok v.tree
  | some failure => .error failure.fault

theorem canonicalize_eq_ok_iff {v w : Value} :
    v.canonicalize = .ok w ↔ v.hasKey = true ∧ v.tree = w := by
  rw [canonicalize, hasKey]
  cases v.failure? <;> simp

theorem treeAll_eq_map (vs : List Value) : treeAll vs = vs.map tree := by
  induction vs with
  | nil => rfl
  | cons v vs ih => simp [treeAll, ih]

theorem treeEntries_eq_map (es : List (Value × Value)) :
    treeEntries es = es.map fun e => (e.1.tree, e.2.tree) := by
  induction es with
  | nil => rfl
  | cons e es ih => simp [treeEntries, ih]

theorem treeFields_eq_map (fs : List (String × Value)) : treeFields fs = fs.map fun f => (f.1, f.2.tree) := by
  induction fs with
  | nil => rfl
  | cons f fs ih => simp [treeFields, ih]

end StateWalk.Value
