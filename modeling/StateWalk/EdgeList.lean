import StateWalk.Behavior

/-!
# Behaviors given by edges

The simplest way to write a behavior down lists, for the key of each state, the events that are
worth trying there and the state that each of them leads to. The edges of a state are looked through
in order; an event that is not listed changes nothing.
-/

namespace StateWalk

/-- For the key of a state, notations of events with the states that they lead to. -/
abbrev EdgeList := List (String × List (Value × Value))

namespace EdgeList

/-- The edges from a state; none if it is not listed. -/
def edgesFrom (edges : EdgeList) (s : Value) : Except Fault (List (Value × Value)) := do
  return (Keyed.find? edges (← s.key)).getD []

/-- The target of the first edge whose event has the same key. The edges after it are not read. -/
def target? (e : Event) : List (Value × Value) → Except Fault (Option Value)
  | [] => .ok none
  | (listed, target) :: rest => do
    let key ← (← Event.ofValue listed).key
    if key = (← e.key) then return some target else target? e rest

def next (edges : EdgeList) (s : Value) (e : Event) : Except Fault Value := do
  return (← target? e (← edges.edgesFrom s)).getD s

def events (edges : EdgeList) (s : Value) : Reading Value :=
  .after (edges.edgesFrom s) fun es => .ofList (es.map Prod.fst)

end EdgeList

end StateWalk
