import StateWalk.Fault

/-!
# Readings

Going through a value item by item can break off: a reading is the list of the items that come up,
and the fault that ends it before its time, if there is one. Whoever works on the items works on all
of them before meeting that fault, so a fault of the work on an item comes first.
-/

namespace StateWalk

/-- The items that come up one after the other, and what breaks them off. -/
structure Reading (α : Type) where
  items : List α := []
  fault : Option Fault := none

namespace Reading

variable {α β : Type}

/-- A reading that is not broken off. -/
def ofList (items : List α) : Reading α := { items }

/-- A reading that is broken off before its first item. -/
def failed (f : Fault) : Reading α := { fault := some f }

/-- A reading of what a computation gives. -/
def after (r : Except Fault β) (read : β → Reading α) : Reading α :=
  match r with
  | .ok b => read b
  | .error f => failed f

/-- Each item with its place. -/
def placed (r : Reading α) : Reading (α × Nat) := { r with items := r.items.zipIdx }

/-- Fails with what breaks a reading off. -/
def finish (r : Reading α) : Except Fault Unit :=
  match r.fault with
  | none => .ok ()
  | some f => .error f

/-- Work on the items in order, then meet the fault. -/
def mapM (f : α → Except Fault β) (r : Reading α) : Except Fault (List β) := do
  let results ← r.items.mapM f
  r.finish
  return results

/-- Do something for the items in order, then meet the fault. -/
def forM (r : Reading α) (f : α → Except Fault Unit) : Except Fault Unit := do
  r.items.forM f
  r.finish

/-- Some item passes the test; the items after it are not asked, and no fault is met. -/
def anyM (test : α → Except Fault Bool) (r : Reading α) : Except Fault Bool := do
  if ← r.items.anyM test then return true
  r.finish
  return false

@[simp]
theorem mapM_ofList (f : α → Except Fault β) (items : List α) :
    (ofList items).mapM f = items.mapM f := by
  simp only [mapM, ofList, finish]
  cases items.mapM f <;> rfl

end Reading

end StateWalk
