import StateWalk.Plan.Signature
import StateWalk.Search.Basic

/-!
# Simple plans

A depth-first search follows every route that meets no node twice. `walk` keeps the visits that are
still to be made on a stack and makes them in pre-order.

The visits of a node become its plan: paths in the order of their length, and of the paths with the
same event types only the first.
-/

namespace StateWalk.Search

variable {σ κ : Type} [KeyType κ]

/-- An arrival at a node by a route that meets no node twice. -/
structure Visit (σ κ : Type) where
  key : κ
  arrival : Arrival σ
  /-- The nodes of the route, this one included. -/
  onRoute : List κ

namespace Visit

/-- Whether the route goes on to the node of this key: it does not if it has met the node, and a new
node must have a key that things can be filed under. -/
def enters (v : Visit σ κ) (key : κ) : Except Fault Bool := do
  let sought := KeyType.sought key
  KeyType.check sought
  if KeyType.isAmong v.onRoute sought then return false
  KeyType.check key
  return true

theorem enters_eq [LawfulKeyType κ] (v : Visit σ κ) (key : κ) :
    v.enters key = .ok !KeyType.isAmong v.onRoute key := by
  simp only [enters, LawfulKeyType.sought_eq, LawfulKeyType.check_eq_ok]
  cases KeyType.isAmong v.onRoute key <;> rfl

/-- The visits that follow a visit directly. -/
def next (v : Visit σ κ) (found : List (Successor σ κ)) : List (Visit σ κ) :=
  found.map fun s => ⟨s.key, v.arrival.extend s, s.key :: v.onRoute⟩

end Visit

/-- Make the visits on the stack and those that follow them; at most `budget` visits. -/
def walk (b : Behavior σ κ) (o : Options σ κ) :
    (budget : Nat) → (visited stack : List (Visit σ κ)) → Except Fault (List (Visit σ κ))
  | _, visited, [] => .ok visited
  | 0, _, _ :: _ => .error o.exhausted
  | budget + 1, visited, v :: stack => do
    let found ← successors b o v.enters v.arrival.state
    walk b o budget (visited ++ [v]) (v.next found ++ stack)

/-- All visits, in pre-order. -/
def simpleVisits (b : Behavior σ κ) (o : Options σ κ) : Except Fault (List (Visit σ κ)) := do
  let key ← o.nodeKey b.initial none
  walk b o o.budget [] [⟨key, ⟨b.initial, []⟩, [key]⟩]

/-- Add an arrival to those of its node; new nodes come last. -/
def addVisit (groups : List (κ × List (Arrival σ))) (v : Visit σ κ) :
    List (κ × List (Arrival σ)) :=
  if groups.any fun g => KeyType.same g.1 v.key then
    groups.map fun g => if KeyType.same g.1 v.key then (g.1, g.2 ++ [v.arrival]) else g
  else groups ++ [(v.key, [v.arrival])]

/-- The arrivals at each node, nodes in the order of their first visit. -/
def arrivalsByNode (visits : List (Visit σ κ)) : List (κ × List (Arrival σ)) :=
  visits.foldl addVisit []

/-- Arrivals in the order of their depth; those of one depth keep theirs. -/
def byDepth (arrivals : List (Arrival σ)) : List (Arrival σ) :=
  arrivals.mergeSort fun a b => decide (a.depth ≤ b.depth)

/-- The plan of a node with these arrivals; a node without any has none. -/
def simplePlan? (describe : σ → Except Fault κ) (arrivals : List (Arrival σ)) :
    Except Fault (Option (Plan σ)) :=
  match byDepth arrivals with
  | [] => .ok none
  | first :: others => do
    let plan ← planOf describe first others
    return some (← plan.distinctSignatures)

/-- The plans of the nodes that have arrivals. -/
def simplePlansOf (describe : σ → Except Fault κ) :
    List (κ × List (Arrival σ)) → Except Fault (List (Plan σ))
  | [] => .ok []
  | (_, arrivals) :: groups => do
    let plan ← simplePlan? describe arrivals
    let rest ← simplePlansOf describe groups
    return plan.toList ++ rest

/-- One plan for every node, with the acyclic paths to it. -/
def simplePlans (b : Behavior σ κ) (o : Options σ κ) : Except Fault (List (Plan σ)) := do
  simplePlansOf (describer b o) (arrivalsByNode (← simpleVisits b o))

/-- The simple plans whose state satisfies a predicate. -/
def simplePlansTo (b : Behavior σ κ) (o : Options σ κ) (goal : σ → Except Fault Bool) :
    Except Fault (List (Plan σ)) := do
  (← simplePlans b o).filterM fun plan => goal plan.state

end StateWalk.Search
