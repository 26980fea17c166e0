import StateWalk.Model.Basic

/-!
# Coverage criteria of a model

`coversAllStates` and `coversAllTransitions` have one criterion for every discoverable state or
transition of a model, which asks for at least one visit. A filter marks the others to be skipped.
-/

namespace StateWalk.TestModel

open Model

variable {σ κ γ ω : Type} [KeyType κ]

/-- Whether a subject is skipped: it is if a filter rejects it. -/
def isSkipped {α : Type} (filter : Option (α → Except Fault Bool)) (a : α) : Except Fault Bool :=
  match filter with
  | none => .ok false
  | some filter => do return !(← filter a)

/-- Every discoverable state is visited. -/
def coversAllStates (m : TestModel σ κ γ ω) (filter : Option (σ → Except Fault Bool) := none) :
    Except Fault (List (Criterion σ κ)) := do
  let states ← m.allStates []
  states.mapM fun s => do
    let key ← m.stateKey [] s
    let shown ← m.describeState [] s
    let skip ← isSkipped filter s
    return ⟨fun c => do return decide (0 < (← c.visitsOfState key)),
      s!"Visits {KeyType.label shown}", skip⟩

/-- Every discoverable transition is performed. -/
def coversAllTransitions (m : TestModel σ κ γ ω)
    (filter : Option (Step σ → Except Fault Bool) := none) :
    Except Fault (List (Criterion σ κ)) := do
  let steps ← m.allTransitions []
  steps.mapM fun step => do
    let key ← m.transitionKey [] step
    let shown ← m.describeState [] step.state
    let skip ← isSkipped filter step
    return ⟨fun c => .ok (decide (0 < c.transitionCount key)),
      s!"Transitions {KeyType.label shown} on {step.event.label}", skip⟩

/-- Criteria, given as a list or made from the model. -/
abbrev Criteria (σ κ γ ω : Type) := TestModel σ κ γ ω → Except Fault (List (Criterion σ κ))

def getCoverage (m : TestModel σ κ γ ω) (coverage : Coverage σ κ) (criteria : Criteria σ κ γ ω) :
    Except Fault (List (Criterion σ κ × Status)) := do
  Criterion.evaluate coverage (← criteria m)

/-- Fails unless every criterion that is not skipped is covered. -/
def testCoverage (m : TestModel σ κ γ ω) (coverage : Coverage σ κ) (criteria : Criteria σ κ γ ω) :
    Except Fault Unit := do
  Criterion.requireCovered (← m.getCoverage coverage criteria)

end StateWalk.TestModel
