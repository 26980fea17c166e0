import StateWalk.Plan.Basic

/-!
# Behaviors

A behavior is a transition system given by functions: where it starts, what an event does in a
state, and which events are worth trying in a state. Its functions may fail, and a failure ends
whatever asked for it.

`replay` runs the events of a route from the initial state; `replay_append` splits a run in two.
-/

namespace StateWalk

/-- A behavior of states in `σ`, which are described by keys in `κ`. -/
structure Behavior (σ κ : Type) where
  initial : σ
  transition : σ → Event → Except Fault σ
  /-- The events to try in a state, in any notation. -/
  events : σ → Reading Value := fun _ => .ofList []
  describe : Option (σ → Except Fault κ) := none
  /-- Whether a key names an active node, for states that have nodes. -/
  hasActive : σ → Option (String → Except Fault Bool) := fun _ => none

namespace Behavior

variable {σ κ : Type}

/-- Send events one after the other. -/
def runFrom (b : Behavior σ κ) (s : σ) : List Event → Except Fault σ
  | [] => .ok s
  | e :: es => do b.runFrom (← b.transition s e) es

/-- The state that the events of a route lead to; the states recorded in the route play no part. -/
def replay (b : Behavior σ κ) (steps : List (Step σ)) : Except Fault σ :=
  b.runFrom b.initial (steps.map Step.event)

theorem runFrom_append (b : Behavior σ κ) (s : σ) (es fs : List Event) :
    b.runFrom s (es ++ fs) = b.runFrom s es >>= fun t => b.runFrom t fs := by
  induction es generalizing s with
  | nil => rfl
  | cons e es ih =>
    simp only [List.cons_append, runFrom]
    cases b.transition s e with
    | error f => rfl
    | ok t => exact ih t

theorem replay_append (b : Behavior σ κ) (steps more : List (Step σ)) :
    b.replay (steps ++ more) =
      b.replay steps >>= fun s => b.runFrom s (more.map Step.event) := by
  simp [replay, runFrom_append]

end Behavior

end StateWalk
