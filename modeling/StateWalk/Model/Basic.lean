import StateWalk.Model.Coverage
import StateWalk.Model.Options
import StateWalk.Plan.Maximal

/-!
# Test models

A test model is a behavior with options. Its queries generate plans, list the discoverable states
and transitions, and compute keys and descriptions; none of them runs anything.

Every query takes settings for this call alone, which are applied to the model's options first. A
model may be made with something that is no options. Then every call that needs them fails, and the
others work.
-/

namespace StateWalk

open Model

structure TestModel (σ κ γ ω : Type) where
  behavior : Behavior σ κ
  /-- The options, or how it fails to use what was given as options. -/
  options : Except Fault (Options σ κ γ ω)

namespace TestModel

variable {σ κ γ ω : Type} [KeyType κ]

/-- A model in messages, from the display of its behavior. -/
def display (behavior : String) : String := s!"TestModel(behavior={behavior})"

/-- The options of a call with these settings. -/
def resolve (m : TestModel σ κ γ ω) (settings : List (Setting σ κ γ ω)) :
    Except Fault (Options σ κ γ ω) := do
  Setting.checkNames settings
  (← m.options).resolve settings

/-- A model with the given options, to which settings are applied if there are any. -/
def ofSettings (b : Behavior σ κ) (given : Except Fault (Options σ κ γ ω))
    (settings : List (Setting σ κ γ ω)) : Except Fault (TestModel σ κ γ ω) :=
  let m : TestModel σ κ γ ω := ⟨b, given⟩
  if settings.isEmpty then .ok m else do return ⟨b, .ok (← m.resolve settings)⟩

/-- The key of a step in coverage records. -/
def stepKey (o : Search.Options σ κ) (step : Step σ) : Except Fault String := do
  let state ← o.stateKey step.state none
  let event ← o.eventKey step.event
  return s!"{KeyType.label state} | {KeyType.label event}"

def stateKey (m : TestModel σ κ γ ω) (settings : List (Setting σ κ γ ω)) (s : σ) :
    Except Fault κ := do
  (← m.resolve settings).stateKey s none

def transitionKey (m : TestModel σ κ γ ω) (settings : List (Setting σ κ γ ω)) (step : Step σ) :
    Except Fault String := do
  stepKey (← m.resolve settings).toOptions step

def describeState (m : TestModel σ κ γ ω) (settings : List (Setting σ κ γ ω)) (s : σ) :
    Except Fault κ := do
  Search.describer m.behavior (← m.resolve settings).toOptions s

/-- The plans of the generator; with `maximal`, only their maximal paths. -/
def plansWith (b : Behavior σ κ) (o : Options σ κ γ ω) (maximal : Bool) :
    Except Fault (List (Plan σ)) := do
  let plans ← o.generator b (o.forSearch b)
  if maximal then Plan.maximalPaths plans o.eventKey else return plans

def plans (m : TestModel σ κ γ ω) (settings : List (Setting σ κ γ ω)) (maximal : Bool := false) :
    Except Fault (List (Plan σ)) := do
  plansWith m.behavior (← m.resolve settings) maximal

def shortestPlans (m : TestModel σ κ γ ω) (settings : List (Setting σ κ γ ω))
    (maximal : Bool := false) : Except Fault (List (Plan σ)) :=
  m.plans (settings ++ [.generator Search.shortestPlans]) maximal

def simplePlans (m : TestModel σ κ γ ω) (settings : List (Setting σ κ γ ω))
    (maximal : Bool := false) : Except Fault (List (Plan σ)) :=
  m.plans (settings ++ [.generator Search.simplePlans]) maximal

def shortestPlansTo (m : TestModel σ κ γ ω) (settings : List (Setting σ κ γ ω))
    (goal : σ → Except Fault Bool) (maximal : Bool := false) : Except Fault (List (Plan σ)) := do
  (← m.shortestPlans settings maximal).filterM fun plan => goal plan.state

def simplePlansTo (m : TestModel σ κ γ ω) (settings : List (Setting σ κ γ ω))
    (goal : σ → Except Fault Bool) (maximal : Bool := false) : Except Fault (List (Plan σ)) := do
  (← m.simplePlans settings maximal).filterM fun plan => goal plan.state

/-- File a subject under its key, unless one is filed there already. The key must be one that things
can be filed under. -/
def fileFirst {ι α : Type} [KeyType ι] (found : List (ι × α)) (key : ι) (a : α) :
    Except Fault (List (ι × α)) := do
  KeyType.check key
  return if KeyType.isAmong (found.map Prod.fst) key then found else found ++ [(key, a)]

/-- The discoverable states, one for each key. -/
def allStates (m : TestModel σ κ γ ω) (settings : List (Setting σ κ γ ω)) :
    Except Fault (List σ) := do
  let o ← m.resolve settings
  let plans ← m.shortestPlans settings
  let found ← plans.foldlM (fun found plan => do
    fileFirst found (← o.stateKey plan.state none) plan.state) []
  return found.map Prod.snd

/-- Add the steps that events make from a state to states that pass the filter, one for each key. -/
def addSteps (b : Behavior σ κ) (o : Search.Options σ κ) (s : σ) :
    (found : List (String × Step σ)) → List Event → Except Fault (List (String × Step σ))
  | found, [] => .ok found
  | found, e :: es => do
    let next ← b.transition s e
    if ← o.admits next then
      let key ← stepKey o ⟨s, e⟩
      addSteps b o s (← fileFirst found key ⟨s, e⟩) es
    else addSteps b o s found es

/-- The transitions of the discoverable states, one for each key. -/
def allTransitions (m : TestModel σ κ γ ω) (settings : List (Setting σ κ γ ω)) :
    Except Fault (List (Step σ)) := do
  let o ← m.resolve settings
  let states ← m.allStates settings
  let found ← states.foldlM (fun found s => do
    addSteps m.behavior o.toOptions s found (← o.expandedEvents m.behavior s)) []
  return found.map Prod.snd

end TestModel

end StateWalk
