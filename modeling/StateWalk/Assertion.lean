import StateWalk.Model.Criteria
import StateWalk.Text.Names

/-!
# Assertions about behaviors and plans

What must hold for generated plans to be trustworthy: replaying a path leads to the state that the
path records, and a transition leads to the same state every time.
-/

namespace StateWalk.Assertion

variable {σ κ γ ω : Type} [KeyType κ]

/-- The key of a state, however it was reached. -/
abbrev StateKey (σ κ : Type) := σ → Option Event → Except Fault κ

/-- Replaying the path from the initial state leads to its state. -/
def pathReplays (b : Behavior σ κ) (key : StateKey σ κ) (path : Path σ) : Except Fault Unit := do
  let reached ← b.replay path.steps
  let expectedKey ← key path.state none
  let reachedKey ← key reached none
  if KeyType.equals reachedKey expectedKey then return ()
  else
    throw (.replayMismatch path.description (KeyType.label reachedKey) (KeyType.label expectedKey))

def plansReplay (b : Behavior σ κ) (key : StateKey σ κ) (plans : List (Plan σ)) : Except Fault Unit :=
  plans.forM fun plan => plan.paths.forM (pathReplays b key)

/-- The keys of the states that an event leads to, computed `repeats` times; each key once. -/
def reachedKeys (b : Behavior σ κ) (key : StateKey σ κ) (s : σ) (e : Event) :
    (repeats : Nat) → Except Fault (List κ)
  | 0 => .ok []
  | repeats + 1 => do
    let k ← key (← b.transition s e) none
    KeyType.check k
    let keys ← reachedKeys b key s e repeats
    return if KeyType.isAmong keys k then keys else keys ++ [k]

/-- The event leads to one state, over `repeats` transitions. -/
def leadsToOne (b : Behavior σ κ) (key : StateKey σ κ) (repeats : Nat) (s : σ) (e : Event) :
    Except Fault Unit := do
  let keys ← reachedKeys b key s e repeats
  if keys.length = 1 then return ()
  else
    let start ← key s none
    let sorted ← KeyType.sort keys
    throw (.notDeterministic (KeyType.label start) e.label (sorted.map KeyType.display))

/-- Every event tried in the states leads to one state each, over `repeats` transitions. -/
def deterministic (b : Behavior σ κ) (states : List σ) (events : Option (σ → Reading Value))
    (key : StateKey σ κ) (repeats : Int := 2) : Except Fault Unit :=
  states.forM fun s =>
    ((events.getD b.events) s).forM fun v => do
      leadsToOne b key repeats.toNat s (← Event.ofValue v)

/-- The keys of the states that the plans lead to, in order. -/
def targetKeys (key : StateKey σ κ) (plans : List (Plan σ)) : Except Fault (List κ) :=
  plans.mapM fun plan => key plan.state none

/-- The weight of the first path of each plan, in order. -/
def firstWeights (plans : List (Plan σ)) : List Int :=
  plans.filterMap fun plan => plan.paths.head?.map Path.weight

/-- The descriptions of the uncovered criteria. -/
def uncovered (m : TestModel σ κ γ ω) (coverage : Coverage σ κ)
    (criteria : TestModel.Criteria σ κ γ ω) : Except Fault (List String) := do
  return Criterion.uncovered (← m.getCoverage coverage criteria)

/-- The attributes of a test context that records calls: an empty list of calls, and those given. -/
def mockContext (attributes : List (String × Value)) : Value :=
  .mapping <| ((attributes.foldl (fun es a => Keyed.put es a.1 a.2) [("calls", .list [])]).map
    fun a => (.text a.1, a.2))

end StateWalk.Assertion
