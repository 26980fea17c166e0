import StateWalk.Plan.Basic

/-!
# Maximal paths

Replaying a path passes through everything that its beginnings pass through, so for a complete run
only the paths that are no beginning of another path are needed. `maximalPaths` keeps those, the
first of several equal ones, and drops the plans that are left without a path.

Paths are compared by the keys of their events. They are taken from the longest to the shortest,
and a path is kept unless it begins one that is kept already.
-/

namespace StateWalk.Plan

variable {σ κ : Type}

/-- The keys of a path's events. -/
def eventKeys (eventKey : Event → Except Fault κ) (p : Path σ) : Except Fault (List κ) :=
  p.steps.mapM fun step => eventKey step.event

/-- A path's place among all paths, and its event keys. -/
abbrev Placed (κ : Type) := Nat × List κ

/-- Longest first; paths of one length keep their order. -/
def longestFirst (entries : List (Placed κ)) : List (Placed κ) :=
  entries.mergeSort fun a b => decide (b.2.length ≤ a.2.length)

/-- Keep a path unless it begins one that is kept already. -/
def keepUnlessBeginning [KeyType κ] (kept : List (Placed κ)) (entry : Placed κ) :
    List (Placed κ) :=
  if kept.any fun other => KeyType.begins entry.2 other.2 then kept else kept ++ [entry]

/-- The places of the paths that are kept, given the event keys of all paths in order. -/
def keptPlaces [KeyType κ] (keys : List (List κ)) : List Nat :=
  let entries := keys.zipIdx.map fun entry => (entry.2, entry.1)
  ((longestFirst entries).foldl keepUnlessBeginning []).map Prod.fst

/-- The plans with the paths at the given places only, counted from `place` on. -/
def select (places : List Nat) : (place : Nat) → List (Plan σ) → List (Plan σ)
  | _, [] => []
  | place, plan :: plans =>
    let paths := ((plan.paths.zipIdx place).filter fun p => places.contains p.2).map Prod.fst
    let rest := select places (place + plan.paths.length) plans
    if paths.isEmpty then rest else { plan with paths } :: rest

def maximalPaths [KeyType κ] (plans : List (Plan σ))
    (eventKey : Event → Except Fault κ := Event.keyIn κ) : Except Fault (List (Plan σ)) := do
  let keys ← (plans.flatMap Plan.paths).mapM (eventKeys eventKey)
  return select (keptPlaces keys) 0 plans

end StateWalk.Plan
