import StateWalk.Behavior

/-!
# Searching a state space

What both searches share: their options, the successors of a state, and arrivals, which are states
together with the way that led there.

A node of the searched graph is a key. `Options.stateKey` computes it from a state and from the
event that produced it, so two states with one key are the same node. The nodes that a search enters
must have keys that things can be filed under.
-/

namespace StateWalk.Search

variable {σ κ : Type} [KeyType κ]

structure Options (σ κ : Type) where
  /-- The key of a state produced by an event, or by none for the initial state. -/
  stateKey : σ → Option Event → Except Fault κ
  /-- The identity of an event when paths are compared. -/
  eventKey : Event → Except Fault κ
  /-- Replaces the events of the behavior. -/
  events : Option (σ → Reading Value) := none
  /-- States that fail the filter are not entered; the initial state is not asked. -/
  filter : Option (σ → Except Fault Bool) := none
  /-- The most nodes that may be expanded. -/
  limit : Option Int := some 10000
  /-- The most nodes that are expanded where there is no limit. -/
  fuel : Nat := Nat.pow 2 48
  /-- Shortest plans keep every equally short last step into a state. -/
  keepTies : Bool := false
  /-- Replaces the description of the behavior. -/
  describe : Option (σ → Except Fault κ) := none

namespace Options

/-- The options that apply where none are given: states are known by their keys, whatever event
produced them, and events by theirs. -/
def ofKey (key : σ → Except Fault String) : Options σ κ where
  stateKey s _ := do return KeyType.ofText (← key s)
  eventKey := Event.keyIn κ

theorem stateKey_ofKey (key : σ → Except Fault String) (s : σ) (e : Option Event) :
    (ofKey key : Options σ String).stateKey s e = key s := by
  change (key s >>= fun text => .ok text) = key s
  cases key s <;> rfl

theorem eventKey_ofKey (key : σ → Except Fault String) (e : Event) :
    (ofKey key : Options σ String).eventKey e = e.key := by
  change (e.key >>= fun text => .ok text) = e.key
  cases e.key <;> rfl

/-- How many nodes may be expanded. -/
def budget (o : Options σ κ) : Nat :=
  match o.limit with
  | some limit => limit.toNat
  | none => o.fuel

/-- The end of a search that would expand one node too many. -/
def exhausted (o : Options σ κ) : Fault :=
  match o.limit with
  | some limit => .limitExceeded limit
  | none => .unfinished

def admits (o : Options σ κ) (s : σ) : Except Fault Bool :=
  match o.filter with
  | some filter => filter s
  | none => .ok true

/-- The node of a state produced by an event, by a key that things can be filed under. -/
def nodeKey (o : Options σ κ) (s : σ) (e : Option Event) : Except Fault κ := do
  let key ← o.stateKey s e
  KeyType.check key
  return key

end Options

/-- How states are described: by the options, else by the behavior, else by their keys. -/
def describer (b : Behavior σ κ) (o : Options σ κ) : σ → Except Fault κ :=
  match o.describe, b.describe with
  | some describe, _ => describe
  | none, some describe => describe
  | none, none => fun s => o.stateKey s none

/-- The events to try in a state. -/
def eventsAt (b : Behavior σ κ) (o : Options σ κ) (s : σ) : Except Fault (List Event) :=
  ((o.events.getD b.events) s).mapM Event.ofValue

/-- A state that an event leads to and that is entered, and the key of its node. -/
structure Successor (σ κ : Type) where
  event : Event
  state : σ
  key : κ

/-- The successor by one event, unless the filter rejects it or its node is not entered. -/
def successor? (b : Behavior σ κ) (o : Options σ κ) (enters : κ → Except Fault Bool) (s : σ)
    (e : Event) : Except Fault (Option (Successor σ κ)) := do
  let next ← b.transition s e
  if ← o.admits next then
    let key ← o.stateKey next (some e)
    return if ← enters key then some ⟨e, next, key⟩ else none
  else return none

/-- The successors by each of the events, in order. -/
def successorsBy (b : Behavior σ κ) (o : Options σ κ) (enters : κ → Except Fault Bool) (s : σ) :
    List Event → Except Fault (List (Successor σ κ))
  | [] => .ok []
  | e :: es => do
    let first ← successor? b o enters s e
    let rest ← successorsBy b o enters s es
    return first.toList ++ rest

/-- The successors of a state; `enters` decides by their keys which nodes are entered. -/
def successors (b : Behavior σ κ) (o : Options σ κ) (enters : κ → Except Fault Bool) (s : σ) :
    Except Fault (List (Successor σ κ)) := do
  successorsBy b o enters s (← eventsAt b o s)

/-- A state and the way to it. -/
structure Arrival (σ : Type) where
  state : σ
  /-- The steps taken, the last one first. -/
  trail : List (Step σ)

namespace Arrival

/-- Go on from an arrival to a successor of its state. -/
def extend (a : Arrival σ) (s : Successor σ κ) : Arrival σ :=
  ⟨s.state, ⟨a.state, s.event⟩ :: a.trail⟩

/-- The number of steps taken. -/
def depth (a : Arrival σ) : Nat := a.trail.length

def path (a : Arrival σ) : Except Fault (Path σ) := Path.ofSteps a.state a.trail.reverse

end Arrival

/-- The plan of a state with these arrivals; its state is that of the first one. -/
def planOf (describe : σ → Except Fault κ) (first : Arrival σ) (others : List (Arrival σ)) :
    Except Fault (Plan σ) := do
  let paths ← (first :: others).mapM Arrival.path
  let description ← describe first.state
  return ⟨first.state, paths, "reaches " ++ KeyType.label description⟩

end StateWalk.Search
