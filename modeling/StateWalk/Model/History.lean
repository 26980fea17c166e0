import StateWalk.Model.Criteria
import StateWalk.Model.Run

/-!
# Histories

A model is worked with by one operation after the other, on one session. An operation that fails leaves the
session as it is then, and the next one goes on from there. `Operation` has the operations of a model,
`Query` those among them that run nothing.
-/

namespace StateWalk

open Model

namespace Model

/-- A question to a model. -/
inductive Query (σ κ γ ω : Type) where
  | plans (settings : List (Setting σ κ γ ω)) (maximal : Bool)
  | shortestPlans (settings : List (Setting σ κ γ ω)) (maximal : Bool)
  | simplePlans (settings : List (Setting σ κ γ ω)) (maximal : Bool)
  | shortestPlansTo (settings : List (Setting σ κ γ ω)) (goal : σ → Except Fault Bool) (maximal : Bool)
  | simplePlansTo (settings : List (Setting σ κ γ ω)) (goal : σ → Except Fault Bool) (maximal : Bool)
  | allStates (settings : List (Setting σ κ γ ω))
  | allTransitions (settings : List (Setting σ κ γ ω))
  | stateKey (settings : List (Setting σ κ γ ω)) (s : σ)
  | transitionKey (settings : List (Setting σ κ γ ω)) (step : Step σ)
  | describeState (settings : List (Setting σ κ γ ω)) (s : σ)
  | getCoverage (criteria : TestModel.Criteria σ κ γ ω)
  | testCoverage (criteria : TestModel.Criteria σ κ γ ω)

/-- Something that is done with a model, or to the world by others. -/
inductive Operation (σ κ γ ω : Type) where
  | testState (settings : List (Setting σ κ γ ω)) (s : σ) (context : γ)
  | testTransition (settings : List (Setting σ κ γ ω)) (step : Step σ) (context : γ)
  | testPath (settings : List (Setting σ κ γ ω)) (path : Path σ) (context : γ)
  | testPlan (settings : List (Setting σ κ γ ω)) (plan : Plan σ) (context : γ)
  | testPlansGiven (settings : List (Setting σ κ γ ω)) (plans : List (Plan σ)) (context : γ)
  | testPlans (settings : List (Setting σ κ γ ω)) (maximal : Bool) (context : γ)
  | ask (q : Query σ κ γ ω)
  | resetCoverage
  /-- The world changes between two operations. -/
  | meanwhile (change : ω → ω)

variable {σ κ γ ω : Type}

/-- The outcome of a question about the coverage. -/
def Run.ask {α : Type} (answer : Coverage σ κ → Except Fault α) : Run σ κ ω α :=
  ExceptT.mk fun session => ((answer session.coverage).mapError RunError.fault, session)

/-- Forget what was counted. -/
def Run.resetCoverage : Run σ κ ω Unit :=
  ExceptT.mk fun session => (.ok (), { session with coverage := {} })

variable [KeyType κ]

/-- Whether the question is answered; the answer itself is left out. -/
def Query.answer (m : TestModel σ κ γ ω) (coverage : Coverage σ κ) : Query σ κ γ ω → Except Fault Unit
  | plans settings maximal => (m.plans settings maximal).map fun _ => ()
  | shortestPlans settings maximal => (m.shortestPlans settings maximal).map fun _ => ()
  | simplePlans settings maximal => (m.simplePlans settings maximal).map fun _ => ()
  | shortestPlansTo settings goal maximal => (m.shortestPlansTo settings goal maximal).map fun _ => ()
  | simplePlansTo settings goal maximal => (m.simplePlansTo settings goal maximal).map fun _ => ()
  | allStates settings => (m.allStates settings).map fun _ => ()
  | allTransitions settings => (m.allTransitions settings).map fun _ => ()
  | stateKey settings s => (m.stateKey settings s).map fun _ => ()
  | transitionKey settings step => (m.transitionKey settings step).map fun _ => ()
  | describeState settings s => (m.describeState settings s).map fun _ => ()
  | getCoverage criteria => (m.getCoverage coverage criteria).map fun _ => ()
  | testCoverage criteria => m.testCoverage coverage criteria

/-- Do an operation; what it returns is left out. -/
def Operation.run (m : TestModel σ κ γ ω) : Operation σ κ γ ω → Run σ κ ω Unit
  | testState settings s context => m.testState settings s context
  | testTransition settings step context => m.testTransition settings step context
  | testPath settings path context => discard (m.testPath settings path context)
  | testPlan settings plan context => discard (m.testPlan settings plan context)
  | testPlansGiven settings plans context => discard (m.testPlansGiven settings context plans)
  | testPlans settings maximal context => discard (m.testPlans settings context maximal)
  | ask q => Run.ask fun coverage => q.answer m coverage
  | resetCoverage => Run.resetCoverage
  | meanwhile change => Run.say change

end Model

/-- The session after operations, each of which is begun whatever became of those before it. -/
def TestModel.after {σ κ γ ω : Type} [KeyType κ] (m : TestModel σ κ γ ω) (ops : List (Operation σ κ γ ω))
    (session : Session σ κ ω) : Session σ κ ω :=
  ops.foldl (fun session op => ((op.run m).run session).2) session

end StateWalk
