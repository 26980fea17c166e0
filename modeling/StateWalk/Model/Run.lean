import StateWalk.Model.Basic

/-!
# Running tests

A run verifies states and performs events against the system under test, one after the other, and
stops at the first failure. It works on a session: the coverage counted so far, and the world that
the caller's functions act on. Both keep what was done before a failure.

A path is run step by step: verify the state, then perform the event; after the last step verify
the state that the path leads to. A failure on the way is reported as a `PathFailure`, with the
results up to it, and within a plan as the failure of that plan.
-/

namespace StateWalk

namespace Model

variable {σ κ γ ω : Type} [KeyType κ]

structure StepResult (σ : Type) where
  step : Step σ
  stateFault : Option Fault := none
  eventFault : Option Fault := none

namespace StepResult

def passed (r : StepResult σ) : Bool := r.stateFault.isNone && r.eventFault.isNone

end StepResult

structure PathResult (σ : Type) where
  steps : List (StepResult σ) := []
  stateFault : Option Fault := none

namespace PathResult

def passed (r : PathResult σ) : Bool := r.stateFault.isNone && r.steps.all StepResult.passed

end PathResult

/-- What made a path fail, and where. -/
structure PathFailure (σ : Type) where
  message : String
  result : PathResult σ
  /-- The step that failed; none if the state at the end did. -/
  stepIndex : Option Nat
  path : Path σ
  cause : Fault

/-- The end of a run before its time. -/
inductive RunError (σ : Type) where
  | fault (f : Fault)
  | path (failure : PathFailure σ)
  | plan (plan : Plan σ) (failure : PathFailure σ)

namespace RunError

def message : RunError σ → String
  | fault f => f.message
  | path failure => failure.message
  | plan p failure => s!"{p.description}\n{failure.message}"

end RunError

structure Session (σ κ ω : Type) where
  coverage : Coverage σ κ := {}
  world : ω

/-- A part of a run that fails with a fault. -/
abbrev Check (σ κ ω : Type) := ExceptT Fault (StateM (Session σ κ ω))

abbrev Run (σ κ ω : Type) := ExceptT (RunError σ) (StateM (Session σ κ ω))

namespace Check

def ofExcept {α : Type} (r : Except Fault α) : Check σ κ ω α :=
  ExceptT.mk fun session => (r, session)

/-- Act on the world. -/
def act (a : Action ω) : Check σ κ ω Unit :=
  ExceptT.mk fun session =>
    let (result, world) := a session.world
    (result, { session with world })

def cover (f : Coverage σ κ → Coverage σ κ) : Check σ κ ω Unit :=
  ExceptT.mk fun session => (.ok (), { session with coverage := f session.coverage })

end Check

namespace Run

/-- The outcome of a check; the run goes on in any case. Only a fault is caught so: what stops a program from outside
goes through. -/
def attempt {α : Type} (c : Check σ κ ω α) : Run σ κ ω (Except Fault α) :=
  ExceptT.mk fun session =>
    let (result, session) := c.run session
    (.ok result, session)

def ofExcept {α : Type} (r : Except Fault α) : Run σ κ ω α :=
  ExceptT.mk fun session => (r.mapError RunError.fault, session)

def ofCheck {α : Type} (c : Check σ κ ω α) : Run σ κ ω α :=
  ExceptT.mk fun session =>
    let (result, session) := c.run session
    (result.mapError RunError.fault, session)

def say (f : ω → ω) : Run σ κ ω Unit :=
  ExceptT.mk fun session => (.ok (), { session with world := f session.world })

end Run

namespace Options

/-- A state test applies if its key names an active node, or is the state's key for states without
nodes. -/
def defaultMatcher (o : Options σ κ γ ω) (b : Behavior σ κ) (s : σ) (key : String) :
    Except Fault Bool :=
  match b.hasActive s with
  | some isActive => isActive key
  | none => do return KeyType.equals (← o.stateKey s none) (KeyType.ofText key)

/-- The tests that apply to a state, of those whose key is not the wildcard. -/
def matching (applies : String → Except Fault Bool) :
    List (String × StateTest σ γ ω) → Except Fault (List (StateTest σ γ ω))
  | [] => .ok []
  | (key, test) :: tests => do
    let here ← if key = wildcard then .ok false else applies key
    let rest ← matching applies tests
    return if here then test :: rest else rest

/-- The tests of a state: those that apply, else that of the wildcard. -/
def selectedTests (o : Options σ κ γ ω) (b : Behavior σ κ) (s : σ) :
    Except Fault (List (StateTest σ γ ω)) := do
  match ← matching ((o.matcher.getD (o.defaultMatcher b)) s) o.stateTests with
  | [] => return (Keyed.find? o.stateTests wildcard).toList
  | tests => return tests

/-- Verify a state: run its tests, count it, and call `afterState`. -/
def checkState (o : Options σ κ γ ω) (b : Behavior σ κ) (s : σ) (context : γ) : Check σ κ ω Unit := do
  let tests ← Check.ofExcept (o.selectedTests b s)
  tests.forM fun test => Check.act (test s context)
  let key ← Check.ofExcept (o.nodeKey s none)
  Check.cover fun c => c.addState key s
  o.afterState.forM fun after => Check.act (after s context)

/-- Perform the event of a step: run its executor, call `afterTransition`, and count it. -/
def checkTransition (o : Options σ κ γ ω) (step : Step σ) (context : γ) : Check σ κ ω Unit := do
  let exec ← Check.ofExcept (o.executor? step.event.type)
  exec.forM fun exec => Check.act (exec step context)
  o.afterTransition.forM fun after => Check.act (after step context)
  let key ← Check.ofExcept (TestModel.stepKey o.toOptions step)
  Check.cover fun c => c.addTransition key step

/-- The lines that show how far a path came. -/
def failureLines (o : Options σ κ γ ω) (b : Behavior σ κ) (results : List (StepResult σ)) :
    Except Fault (List String) := do
  let lines ← results.mapM fun r => do
    let marker := if r.passed then "[ok]" else "[failed]"
    let state ← Search.describer b o.toOptions r.step.state
    let event ← o.eventKey r.step.event
    return [s!"\t{marker} State: {KeyType.label state}", s!"\t{marker} Event: {KeyType.label event}"]
  return lines.flatten

def failureMessage (o : Options σ κ γ ω) (b : Behavior σ κ) (path : Path σ) (result : PathResult σ)
    (stepIndex : Option Nat) (cause : Fault) : Except Fault String := do
  let place := match stepIndex with
    | some i => s!"step {i}"
    | none => "target state"
  let lines ← o.failureLines b result.steps
  let last ← match stepIndex with
    | some _ => .ok []
    | none => do
      let state ← Search.describer b o.toOptions path.state
      pure [s!"\t[failed] State: {KeyType.label state}"]
  return "\n".intercalate
    (s!"Path failed at {place} ({path.description}): {cause.message}" :: "Path:" :: lines ++ last)

/-- Report the failure of a path to the logger and end the run with it. -/
def fail {α : Type} (o : Options σ κ γ ω) (b : Behavior σ κ) (path : Path σ) (result : PathResult σ)
    (stepIndex : Option Nat) (cause : Fault) : Run σ κ ω α := do
  let message ← Run.ofExcept (o.failureMessage b path result stepIndex cause)
  Run.say (o.logger.error message)
  throw (.path { message, result, stepIndex, path, cause })

/-- Run the steps of a path that are left; `done` are the results so far. -/
def runSteps (o : Options σ κ γ ω) (b : Behavior σ κ) (path : Path σ) (context : γ) :
    (done : List (StepResult σ)) → List (Step σ) → Run σ κ ω (List (StepResult σ))
  | done, [] => return done
  | done, step :: steps => do
    match ← Run.attempt (o.checkState b step.state context) with
    | .error f =>
      o.fail b path { steps := done ++ [{ step, stateFault := some f }] } (some done.length) f
    | .ok () =>
      match ← Run.attempt (o.checkTransition step context) with
      | .error f =>
        o.fail b path { steps := done ++ [{ step, eventFault := some f }] } (some done.length) f
      | .ok () => o.runSteps b path context (done ++ [{ step }]) steps

def runPath (o : Options σ κ γ ω) (b : Behavior σ κ) (path : Path σ) (context : γ) :
    Run σ κ ω (PathResult σ) := do
  let steps ← o.runSteps b path context [] path.steps
  match ← Run.attempt (o.checkState b path.state context) with
  | .error f => o.fail b path { steps, stateFault := some f } none f
  | .ok () => return { steps }

/-- Run paths of a plan; the failure of a path is that of the plan. -/
def runPaths (o : Options σ κ γ ω) (b : Behavior σ κ) (plan : Plan σ) (context : γ) :
    List (Path σ) → Run σ κ ω (List (PathResult σ))
  | [] => return []
  | path :: paths => do
    let result ← tryCatch (o.runPath b path context) fun
      | .path failure => throw (.plan plan failure)
      | e => throw e
    return result :: (← o.runPaths b plan context paths)

def runPlan (o : Options σ κ γ ω) (b : Behavior σ κ) (plan : Plan σ) (context : γ) :
    Run σ κ ω (List (PathResult σ)) := do
  Run.say (o.logger.log s!"Testing plan: {plan.description}")
  o.runPaths b plan context plan.paths

end Options

end Model

namespace TestModel

open Model

variable {σ κ γ ω : Type} [KeyType κ]

def testState (m : TestModel σ κ γ ω) (settings : List (Setting σ κ γ ω)) (s : σ) (context : γ) :
    Run σ κ ω Unit := do
  let o ← Run.ofExcept (m.resolve settings)
  Run.ofCheck (o.checkState m.behavior s context)

def testTransition (m : TestModel σ κ γ ω) (settings : List (Setting σ κ γ ω)) (step : Step σ)
    (context : γ) : Run σ κ ω Unit := do
  let o ← Run.ofExcept (m.resolve settings)
  Run.ofCheck (o.checkTransition step context)

def testPath (m : TestModel σ κ γ ω) (settings : List (Setting σ κ γ ω)) (path : Path σ)
    (context : γ) : Run σ κ ω (PathResult σ) := do
  let o ← Run.ofExcept (m.resolve settings)
  o.runPath m.behavior path context

def testPlan (m : TestModel σ κ γ ω) (settings : List (Setting σ κ γ ω)) (plan : Plan σ)
    (context : γ) : Run σ κ ω (List (PathResult σ)) := do
  let o ← Run.ofExcept (m.resolve settings)
  o.runPlan m.behavior plan context

/-- Run plans one after the other. -/
def testPlansGiven (m : TestModel σ κ γ ω) (settings : List (Setting σ κ γ ω)) (context : γ) :
    List (Plan σ) → Run σ κ ω (List (PathResult σ))
  | [] => return []
  | plan :: plans => do
    let results ← m.testPlan settings plan context
    return results ++ (← m.testPlansGiven settings context plans)

/-- Generate plans, with `maximal` only their maximal paths, and run them. -/
def testPlans (m : TestModel σ κ γ ω) (settings : List (Setting σ κ γ ω)) (context : γ)
    (maximal : Bool := false) : Run σ κ ω (List (PathResult σ)) := do
  m.testPlansGiven settings context (← Run.ofExcept (m.plans settings maximal))

end TestModel

end StateWalk
