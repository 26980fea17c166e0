import StateWalk.Search.Basic

/-!
# Shortest plans

A breadth-first search finds one shortest path to every node. `explore` keeps the routes whose
nodes are expanded apart from the frontier, the routes that are found and still wait; both are in
the order of their discovery, so together they list every node found so far, and the frontier is
the queue of the search.

With `keepTies` a route also collects the other arrivals at its node that are as short as the
first. Such arrivals come one step from the node being expanded, so they can only meet a node of
the frontier.
-/

namespace StateWalk.Search

variable {σ κ : Type} [KeyType κ]

/-- A node with its first arrival and the equally short ones found later. -/
structure Route (σ κ : Type) where
  key : κ
  first : Arrival σ
  ties : List (Arrival σ) := []

namespace Route

/-- Keep an arrival at the node that is as short as the first. -/
def addTie (r : Route σ κ) (key : κ) (a : Arrival σ) : Route σ κ :=
  if KeyType.same r.key key ∧ r.first.depth = a.depth then { r with ties := r.ties ++ [a] } else r

def plan (describe : σ → Except Fault κ) (r : Route σ κ) : Except Fault (Plan σ) :=
  planOf describe r.first r.ties

end Route

/-- The node of this key is on one of the routes. -/
def isFound (routes : List (Route σ κ)) (key : κ) : Bool := routes.any fun r => KeyType.same r.key key

/-- Every node is entered that things can be filed under. -/
def entersFiled (key : κ) : Except Fault Bool := do
  KeyType.check key
  return true

theorem entersFiled_eq [LawfulKeyType κ] (key : κ) : entersFiled key = .ok true := by
  simp only [entersFiled, LawfulKeyType.check_eq_ok]
  rfl

/-- Enter a successor of `source` into the frontier. -/
def discover (o : Options σ κ) (source : Arrival σ) (expanded frontier : List (Route σ κ))
    (s : Successor σ κ) : List (Route σ κ) :=
  if isFound expanded s.key then frontier
  else if isFound frontier s.key then
    if o.keepTies then frontier.map fun r => r.addTie s.key (source.extend s) else frontier
  else frontier ++ [⟨s.key, source.extend s, []⟩]

/-- Expand the frontier, route by route, until none is left; at most `budget` routes. -/
def explore (b : Behavior σ κ) (o : Options σ κ) :
    (budget : Nat) → (expanded frontier : List (Route σ κ)) → Except Fault (List (Route σ κ))
  | _, expanded, [] => .ok expanded
  | 0, _, _ :: _ => .error o.exhausted
  | budget + 1, expanded, r :: frontier => do
    let found ← successors b o entersFiled r.first.state
    let expanded := expanded ++ [r]
    explore b o budget expanded (found.foldl (discover o r.first expanded) frontier)

/-- The routes to every node, in the order of discovery. -/
def shortestRoutes (b : Behavior σ κ) (o : Options σ κ) : Except Fault (List (Route σ κ)) := do
  let key ← o.nodeKey b.initial none
  explore b o o.budget [] [⟨key, ⟨b.initial, []⟩, []⟩]

/-- One plan for every node, with a shortest path to it. -/
def shortestPlans (b : Behavior σ κ) (o : Options σ κ) : Except Fault (List (Plan σ)) := do
  let routes ← shortestRoutes b o
  routes.mapM (Route.plan (describer b o))

/-- The shortest plans whose state satisfies a predicate. -/
def shortestPlansTo (b : Behavior σ κ) (o : Options σ κ) (goal : σ → Except Fault Bool) :
    Except Fault (List (Plan σ)) := do
  (← shortestPlans b o).filterM fun plan => goal plan.state

end StateWalk.Search
