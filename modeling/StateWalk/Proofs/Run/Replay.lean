import StateWalk.Proofs.Run.Tasks
import StateWalk.Proofs.Search.Admitted

/-!
# Running a path

A path is run one call after the other, in the order of its schedule: for each step the tests of its state,
`afterState`, the executor of its event and `afterTransition`, and last the tests of the state that the
path leads to, and `afterState`. The first call that fails ends the run, and the place of that call is
where the path is reported to have failed.

`runPath_run` says that running a path is to perform its tasks, and `testPath_stops_at_first_failure` what
follows for the calls, the result and the failure.
-/

namespace StateWalk.Model

open Outcome

variable {σ κ γ ω : Type}

/-! ## The schedule of a path -/

/-- Where in a path a function is called. -/
inductive Position where
  /-- To verify the state of the step at this place. -/
  | state (i : Nat)
  /-- To perform the event of the step at this place. -/
  | event (i : Nat)
  /-- To verify the state after the last step. -/
  | target
  deriving DecidableEq

namespace Position

def stepIndex : Position → Option Nat
  | state i | event i => some i
  | target => none

/-- The result of a path that fails at this position: the steps up to there, all of which passed but
the last one. -/
def result (path : Path σ) (f : Fault) : Position → PathResult σ
  | state i =>
    { steps := (path.steps.take (i + 1)).mapIdx fun j step =>
        if j = i then { step, stateFault := some f } else { step } }
  | event i =>
    { steps := (path.steps.take (i + 1)).mapIdx fun j step =>
        if j = i then { step, eventFault := some f } else { step } }
  | target => { steps := path.steps.map fun step => { step }, stateFault := some f }

theorem step_mem_of_mem_result {path : Path σ} {p : Position} {f : Fault} {r : StepResult σ}
    (h : r ∈ (p.result path f).steps) : r.step ∈ path.steps := by
  cases p with
  | target =>
    obtain ⟨step, mem, rfl⟩ := List.mem_map.1 h
    exact mem
  | state i | event i =>
    obtain ⟨j, hj, rfl⟩ := List.mem_mapIdx.1 h
    have mem : (path.steps.take (i + 1))[j] ∈ path.steps := List.mem_of_mem_take (List.getElem_mem hj)
    split <;> exact mem

end Position

theorem attempt_run {α : Type} (c : Check σ κ ω α) (session : Session σ κ ω) :
    (Run.attempt c).run session = (.ok (c.run session).1, (c.run session).2) := rfl

/-- The steps up to one of a path, with that one marked. -/
theorem mapIdx_take_of_split {α β : Type} {f g : α → β} {all done rest : List α} {a : α}
    (split : all = done ++ a :: rest) :
    (all.take (done.length + 1)).mapIdx (fun j a => if j = done.length then f a else g a) =
      done.map g ++ [f a] := by
  have before : done.mapIdx (fun j a => if j = done.length then f a else g a) = done.map g := by
    apply List.ext_getElem?
    intro i
    rw [List.getElem?_mapIdx, List.getElem?_map]
    refine Option.map_congr fun a mem => if_neg ?_
    exact Nat.ne_of_lt (List.getElem?_eq_some_iff.1 mem).1
  have take : all.take (done.length + 1) = done ++ [a] := by
    rw [split, List.take_length_add_append]
    rfl
  rw [take, List.mapIdx_append, before]
  simp

namespace Directions

/-- The calls that verify a state. -/
def stateCalls (D : Directions σ κ γ ω) (o : Options σ κ γ ω) (context : γ) (s : σ) : List (Action ω) :=
  (D.tests o s ++ o.afterState.toList).map fun test => test s context

/-- The calls that perform the event of a step. -/
def eventCalls (D : Directions σ κ γ ω) (o : Options σ κ γ ω) (context : γ) (step : Step σ) :
    List (Action ω) :=
  ((D.executor? step.event.type).toList ++ o.afterTransition.toList).map fun exec => exec step context

/-- The calls for steps, the first of which is at this place of its path. -/
def stepCalls (D : Directions σ κ γ ω) (o : Options σ κ γ ω) (context : γ) :
    (place : Nat) → List (Step σ) → List (Position × Action ω)
  | _, [] => []
  | i, step :: steps =>
    (D.stateCalls o context step.state).map (Prod.mk (.state i)) ++
      (D.eventCalls o context step).map (Prod.mk (.event i)) ++ D.stepCalls o context (i + 1) steps

/-- The calls for a path. -/
def schedule (D : Directions σ κ γ ω) (o : Options σ κ γ ω) (context : γ) (path : Path σ) :
    List (Position × Action ω) :=
  D.stepCalls o context 0 path.steps ++ (D.stateCalls o context path.state).map (Prod.mk .target)

variable [KeyType κ] {D : Directions σ κ γ ω} {o : Options σ κ γ ω} {b : Behavior σ κ} {path : Path σ}

/-- The directions are for the states and the events of the path. -/
structure ForPath (D : Directions σ κ γ ω) (b : Behavior σ κ) (o : Options σ κ γ ω) (path : Path σ) :
    Prop where
  states : ∀ step ∈ path.steps, D.ForState b o step.state
  events : ∀ step ∈ path.steps, D.ForEvent o step.event
  target : D.ForState b o path.state

/-! ## The tasks of a path -/

/-- The tasks of steps, the first of which is at this place of its path. -/
def stepTasks (D : Directions σ κ γ ω) (o : Options σ κ γ ω) (context : γ) :
    (place : Nat) → List (Step σ) → List (Position × Task σ κ ω)
  | _, [] => []
  | i, step :: steps =>
    (D.stateTasks o context step.state).map (Prod.mk (.state i)) ++
      (D.eventTasks o context step).map (Prod.mk (.event i)) ++ D.stepTasks o context (i + 1) steps

def pathTasks (D : Directions σ κ γ ω) (o : Options σ κ γ ω) (context : γ) (path : Path σ) :
    List (Position × Task σ κ ω) :=
  D.stepTasks o context 0 path.steps ++ (D.stateTasks o context path.state).map (Prod.mk .target)

omit [KeyType κ] in
theorem calls_stateTasks (context : γ) (s : σ) (p : Position) :
    calls ((D.stateTasks o context s).map (Prod.mk p)) = (D.stateCalls o context s).map (Prod.mk p) := by
  simp [calls, stateTasks, stateCalls, Task.call?, List.filterMap_map, Function.comp_def]

theorem calls_eventTasks (context : γ) (step : Step σ) (p : Position) :
    calls ((D.eventTasks o context step).map (Prod.mk p)) =
      (D.eventCalls o context step).map (Prod.mk p) := by
  simp [calls, eventTasks, eventCalls, Task.call?, List.filterMap_map, Function.comp_def]

theorem calls_stepTasks (context : γ) (i : Nat) (steps : List (Step σ)) :
    calls (D.stepTasks o context i steps) = D.stepCalls o context i steps := by
  induction steps generalizing i with
  | nil => rfl
  | cons step steps ih =>
    rw [stepTasks, stepCalls, calls_append, calls_append, calls_stateTasks, calls_eventTasks, ih]

/-- The calls among the tasks of a path are its schedule. -/
theorem calls_pathTasks (context : γ) (path : Path σ) :
    calls (D.pathTasks o context path) = D.schedule o context path := by
  rw [pathTasks, schedule, calls_append, calls_stepTasks, calls_stateTasks]

/-! ## Failures -/

theorem ForPath.exists_failureLines (h : D.ForPath b o path) {results : List (StepResult σ)}
    (mem : ∀ r ∈ results, r.step ∈ path.steps) : ∃ lines, o.failureLines b results = .ok lines := by
  obtain ⟨lines, made⟩ : ∃ lines, results.mapM (fun r => do
      let marker := if r.passed then "[ok]" else "[failed]"
      let state ← Search.describer b o.toOptions r.step.state
      let event ← o.eventKey r.step.event
      return [s!"\t{marker} State: {KeyType.label state}", s!"\t{marker} Event: {KeyType.label event}"])
        = .ok lines := by
    refine exists_mapM_eq_ok fun r hr => ?_
    obtain ⟨k, described⟩ := (h.states r.step (mem r hr)).described
    rw [described, (h.events r.step (mem r hr)).key]
    exact ⟨_, rfl⟩
  exact ⟨lines.flatten, bind_eq_ok_iff.2 ⟨lines, made, rfl⟩⟩

theorem ForPath.exists_failureMessage (h : D.ForPath b o path) (p : Position) (f : Fault) :
    ∃ message, o.failureMessage b path (p.result path f) p.stepIndex f = .ok message := by
  obtain ⟨lines, shown⟩ := h.exists_failureLines fun r => Position.step_mem_of_mem_result (p := p) (f := f)
  obtain ⟨k, described⟩ := h.target.described
  unfold Options.failureMessage
  rw [shown]
  cases p with
  | state i | event i => exact ⟨_, rfl⟩
  | target =>
    simp only [Position.stepIndex, described]
    exact ⟨_, rfl⟩

/-- A failure can be worded, is reported, and ends the run. -/
theorem ForPath.fail_run (h : D.ForPath b o path) (p : Position) (f : Fault) :
    ∃ message, o.failureMessage b path (p.result path f) p.stepIndex f = .ok message ∧
      ∀ (α : Type) (session : Session σ κ ω),
        (o.fail b path (p.result path f) p.stepIndex f : Run σ κ ω α).run session =
          (.error (.path ⟨message, p.result path f, p.stepIndex, path, f⟩),
            { session with world := o.logger.error message session.world }) := by
  obtain ⟨message, worded⟩ := h.exists_failureMessage p f
  refine ⟨message, worded, fun α session => ?_⟩
  rw [Options.fail, worded]
  rfl

/-! ## Steps -/

/-- Running the steps that are left is to perform their tasks. -/
theorem ForPath.runSteps_run (h : D.ForPath b o path) (context : γ) {done steps : List (Step σ)}
    (split : path.steps = done ++ steps) (session : Session σ κ ω) :
    (o.runSteps b path context (done.map fun step => { step }) steps).run session =
      match perform (D.stepTasks o context done.length steps) session with
      | (none, session) => (.ok (path.steps.map fun step => { step }), session)
      | (some (p, f), session) => (o.fail b path (p.result path f) p.stepIndex f).run session := by
  induction steps generalizing done session with
  | nil =>
    rw [split, List.append_nil]
    rfl
  | cons step steps ih =>
    have mem : step ∈ path.steps := split ▸ List.mem_append_right done List.mem_cons_self
    rw [Options.runSteps, run_bind, attempt_run, (h.states step mem).checkState_eq, stepTasks, perform_append,
      perform_append]
    obtain ⟨session, run, all⟩ | ⟨f, session, run, stop⟩ :=
      forM_cases (.state done.length : Position) (D.stateTasks o context step.state) session
    · simp only [run, all]
      rw [run_bind, attempt_run, (h.events step mem).checkTransition_eq (h.states step mem)]
      obtain ⟨session, run, all⟩ | ⟨f, session, run, stop⟩ :=
        forM_cases (.event done.length : Position) (D.eventTasks o context step) session
      · simp only [run, all]
        have split' : path.steps = (done ++ [step]) ++ steps := by
          rw [split, List.append_assoc]
          rfl
        have rest := ih split' session
        rwa [List.map_append, List.length_append] at rest
      · simp only [run, stop, Position.result, mapIdx_take_of_split split, List.length_map]
        rfl
    · simp only [run, stop, Position.result, mapIdx_take_of_split split, List.length_map]
      rfl

theorem ForPath.runPath_run (h : D.ForPath b o path) (context : γ) (session : Session σ κ ω) :
    (o.runPath b path context).run session =
      match perform (D.pathTasks o context path) session with
      | (none, session) => (.ok { steps := path.steps.map fun step => { step } }, session)
      | (some (p, f), session) => (o.fail b path (p.result path f) p.stepIndex f).run session := by
  rw [Options.runPath, run_bind, pathTasks, perform_append]
  have split : path.steps = [] ++ path.steps := rfl
  have steps := h.runSteps_run context split session
  rw [List.map_nil] at steps
  rw [steps]
  rcases perform (D.stepTasks o context 0 path.steps) session with ⟨_ | ⟨p, f⟩, session⟩
  · simp only
    rw [run_bind, attempt_run, h.target.checkState_eq]
    obtain ⟨session, run, all⟩ | ⟨f, session, run, stop⟩ :=
      forM_cases Position.target (D.stateTasks o context path.state) session
    · simp only [run, all]
      rfl
    · simp only [run, stop]
      rfl
  · -- the failure ends both the steps and the path
    obtain ⟨message, -, fails⟩ := h.fail_run p f
    simp only [fails]

end Directions

/-! ## Stopping at the first failure -/

section

variable [KeyType κ] {D : Directions σ κ γ ω} {o : Options σ κ γ ω} {path : Path σ}

theorem testPath_run {m : TestModel σ κ γ ω} {settings : List (Setting σ κ γ ω)}
    (resolved : m.resolve settings = .ok o) (context : γ) (session : Session σ κ ω) :
    (m.testPath settings path context).run session = (o.runPath m.behavior path context).run session := by
  rw [TestModel.testPath, resolved]
  rfl

theorem passed_of_all (steps : List (Step σ)) :
    PathResult.passed { steps := steps.map fun step => { step } } = true := by
  simp [PathResult.passed, StepResult.passed]

/-- **A path is run call by call and stops at the first failure.** Either every call of its schedule is made
in turn and succeeds, and the result has passed, with one result for each step. Or the calls before some
call of the schedule are made and succeed, that call is made and fails, and nothing else is done than to
log a message and to end with a failure of the path: it has the fault as its cause, the place of the call,
and the results up to there. A call fails with a fault: an interrupt or a demand to exit is no failure of a path,
and ends the run with no result. -/
theorem testPath_stops_at_first_failure {m : TestModel σ κ γ ω} {settings : List (Setting σ κ γ ω)}
    (resolved : m.resolve settings = .ok o) (directs : D.ForPath m.behavior o path) (context : γ)
    (session : Session σ κ ω) :
    (∃ session', Succeed ((D.schedule o context path).map Prod.snd) session.world session'.world ∧
        (m.testPath settings path context).run session =
          (.ok { steps := path.steps.map fun step => { step } }, session') ∧
        PathResult.passed { steps := path.steps.map fun step => { step } } = true) ∨
      ∃ before position call after w f w' message coverage,
        D.schedule o context path = before ++ (position, call) :: after ∧
        Succeed (before.map Prod.snd) session.world w ∧ call w = (.error f, w') ∧
        o.failureMessage m.behavior path (position.result path f) position.stepIndex f = .ok message ∧
        (m.testPath settings path context).run session =
          (.error (.path
            { message, result := position.result path f, stepIndex := position.stepIndex, path, cause := f }),
            ⟨coverage, o.logger.error message w'⟩) := by
  rw [testPath_run resolved, directs.runPath_run, ← D.calls_pathTasks]
  obtain ⟨session', run, done⟩ | ⟨before, p, call, after, mid, f, w, split, done, failed, run⟩ :=
    perform_cases (D.pathTasks o context path) session
  · rw [run]
    exact .inl ⟨session', done.succeed, rfl, passed_of_all path.steps⟩
  · obtain ⟨message, worded, fails⟩ := directs.fail_run p f
    rw [run, split, calls_append]
    refine .inr ⟨calls before, p, call, calls after, mid.world, f, w, message, mid.coverage, rfl,
      done.succeed, failed, worded, ?_⟩
    simp only [fails]

end

/-! ## A ride -/

/-- What was called, each time with the context that it was called with. -/
abbrev CallLog := List (String × String)

def note (text : String) (context : String) : Action CallLog := fun log =>
  (.ok (), log ++ [(context, text)])

/-- A carousel that can be stepped but jams when it is told to skip. -/
def rideOptions : Options (Search.Place × Nat) String String CallLog :=
  { Search.carouselOptions with
    eventEntries := [("step", .executor fun _ => note "step"),
      (wildcard, .executor fun _ context log =>
        (.error (.raised "RuntimeError" "stuck"), log ++ [(context, "jam")]))]
    stateTests := [("second", fun _ => note "at second"), (wildcard, fun _ => note "elsewhere")]
    afterTransition := some fun _ => note "moved"
    logger := { error := fun _ log => log ++ [("", "failed")] }
    generator := Search.shortestPlans }

def ride : TestModel (Search.Place × Nat) String String CallLog := ⟨Search.carousel, .ok rideOptions⟩

/-- A step and a skip, back to the first place. -/
def roundTrip : Path (Search.Place × Nat) where
  state := (.first, 2)
  steps := [⟨(.first, 0), ⟨.text "step", []⟩⟩, ⟨(.second, 1), ⟨.text "skip", []⟩⟩]
  weight := 2
  description := "via step -> skip"

theorem ride_forState (s : Search.Place × Nat) :
    (Directions.answers Search.carousel rideOptions).ForState Search.carousel rideOptions s :=
  Directions.forState_answers (fun _ _ _ => ⟨_, rfl⟩) ⟨_, rfl⟩ ⟨_, rfl⟩

theorem roundTrip_forPath :
    (Directions.answers Search.carousel rideOptions).ForPath Search.carousel rideOptions roundTrip where
  states step _ := ride_forState step.state
  events step mem := by
    simp only [roundTrip, List.mem_cons, List.not_mem_nil, or_false] at mem
    obtain rfl | rfl := mem <;> exact Directions.forEvent_answers ⟨_, rfl⟩ ⟨_, rfl⟩ ⟨_, rfl⟩
  target := ride_forState _

/-- The place where a path failed, and which states and events of the steps failed. -/
def failureShape {σ α : Type} : Except (RunError σ) α → Option (Option Nat × List (Bool × Bool))
  | .error (.path failure) => some (failure.stepIndex,
      failure.result.steps.map fun r => (r.stateFault.isSome, r.eventFault.isSome))
  | _ => none

/-- The round trip stops when the carousel jams: neither is `afterTransition` called any more, nor is the
first place verified again. -/
theorem roundTrip_stops_at_jam :
    ∃ failure coverage, (ride.testPath [] roundTrip "page").run ⟨{}, []⟩ = (.error (.path failure), ⟨coverage,
        [("page", "elsewhere"), ("page", "step"), ("page", "moved"), ("page", "at second"), ("page", "jam"),
          ("", "failed")]⟩) ∧
      failure.stepIndex = some 1 ∧ failure.path = roundTrip ∧
      failure.result.steps.map (fun r => (r.stateFault.isSome, r.eventFault.isSome)) =
        [(false, false), (false, true)] := by
  have shown : (failureShape ((ride.testPath [] roundTrip "page").run ⟨{}, []⟩).1,
      ((ride.testPath [] roundTrip "page").run ⟨{}, []⟩).2.world) =
      (some (some 1, [(false, false), (false, true)]),
        [("page", "elsewhere"), ("page", "step"), ("page", "moved"), ("page", "at second"), ("page", "jam"),
          ("", "failed")]) := by
    decide
  have resolved : ride.resolve [] = .ok rideOptions := rfl
  obtain ⟨session', -, run, -⟩ | ⟨-, position, -, -, -, f, w', message, coverage, -, -, -, -, run⟩ :=
    testPath_stops_at_first_failure resolved roundTrip_forPath "page" ⟨{}, []⟩
  · rw [run] at shown
    cases shown
  · rw [run] at shown
    obtain ⟨shape, log⟩ := Prod.mk.inj shown
    obtain ⟨index, steps⟩ := Prod.mk.inj (Option.some.inj shape)
    change rideOptions.logger.error message w' = _ at log
    rw [log] at run
    exact ⟨_, coverage, run, index, rfl, steps⟩

end StateWalk.Model
