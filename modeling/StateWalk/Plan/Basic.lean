import StateWalk.Event

/-!
# Steps, paths and plans

A path is a recipe for reaching a state: the steps to take from the initial state, each with the
state that it is taken in. A plan collects paths to one state.
-/

namespace StateWalk

/-- An event sent in a state. -/
structure Step (σ : Type) where
  state : σ
  event : Event

/-- A step from a value, as a value. -/
def Step.toValue (step : Step Value) : Value := .step step.state step.event.toValue

structure Path (σ : Type) where
  /-- The state after the last step. -/
  state : σ
  steps : List (Step σ)
  weight : Int
  description : String

structure Plan (σ : Type) where
  /-- The state that every path leads to. -/
  state : σ
  paths : List (Path σ)
  description : String

variable {σ : Type}

/-- The texts that the values are, counted from `place` on. -/
def textsFrom (place : Nat) : List Value → Except Fault (List String)
  | [] => .ok []
  | v :: vs =>
    match v.text? with
    | some s => do return s :: (← textsFrom (place + 1) vs)
    | none => .error (.notText place v)

/-- The event types of a route, joined by arrows; they must be texts. -/
def describeSteps : List (Step σ) → Except Fault String
  | [] => .ok "via initial state"
  | steps => do
    let types ← textsFrom 0 (steps.map fun step => step.event.type)
    return "via " ++ " -> ".intercalate types

namespace Path

/-- A path that weighs as much as it has steps and is described by its events, unless said
otherwise. -/
def ofSteps (state : σ) (steps : List (Step σ)) (weight : Option Int := none)
    (description : String := "") : Except Fault (Path σ) := do
  let description ← if description.isEmpty then describeSteps steps else pure description
  return { state, steps, weight := weight.getD steps.length, description }

/-- The event types of a path, in order. -/
def signature (p : Path σ) : List Value := p.steps.map fun step => step.event.type

end Path

/-- The signatures of the paths of each plan. -/
def signatures (plans : List (Plan σ)) : List (List (List Value)) :=
  plans.map fun plan => plan.paths.map Path.signature

end StateWalk
