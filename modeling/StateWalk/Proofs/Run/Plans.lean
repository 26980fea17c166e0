import StateWalk.Proofs.Run.Coverage

/-!
# Running plans

A run of plans goes through stages, one after the other: a plan is announced to the logger, its paths are run,
and the next plan is announced. So the paths that are run are those of all plans in a row (`paths_stages`), and
each of them is run as if it were run alone, from where the stages before it leave the session (`GoesThrough`).

The first path that fails ends the run. It fails as it does alone, and what is reported is its failure, with the
plan that it belongs to (`plans_stop_at_first_failed_path`).
-/

namespace StateWalk

/-- The result of a run of the path in which nothing fails. -/
def Path.passedResult {σ : Type} (path : Path σ) : Model.PathResult σ :=
  { steps := path.steps.map fun step => { step } }

namespace Model

variable {σ κ γ ω : Type}

/-! ## Stages -/

/-- What a run of plans does at one time. -/
inductive Stage (σ : Type) where
  | announce (plan : Plan σ)
  /-- Run a path of the plan. -/
  | path (plan : Plan σ) (path : Path σ)

/-- The path that is run. -/
def Stage.path? : Stage σ → Option (Path σ)
  | announce _ => none
  | path _ p => some p

def planStages (plan : Plan σ) : List (Stage σ) := .announce plan :: plan.paths.map (.path plan)

/-- The stages of a run of plans. -/
def stages (plans : List (Plan σ)) : List (Stage σ) := plans.flatMap planStages

theorem paths_planStages (plan : Plan σ) : (planStages plan).filterMap Stage.path? = plan.paths := by
  have paths : (plan.paths.map (Stage.path plan)).filterMap Stage.path? = plan.paths := by
    rw [List.filterMap_map]
    exact List.filterMap_some
  exact paths

/-- The paths that are run are those of all plans, one plan after the other. -/
theorem paths_stages (plans : List (Plan σ)) :
    (stages plans).filterMap Stage.path? = plans.flatMap Plan.paths := by
  rw [stages, List.filterMap_flatMap]
  exact congrArg plans.flatMap (funext paths_planStages)

section

variable [KeyType κ] (m : TestModel σ κ γ ω) (settings : List (Setting σ κ γ ω)) (context : γ)
  (logger : Logger ω)

/-- The stages are gone through one after the other without a failure, with these results of their paths. An
announcement is logged and does nothing else. -/
inductive GoesThrough : List (Stage σ) → Session σ κ ω → List (PathResult σ) → Session σ κ ω → Prop where
  | nil (session : Session σ κ ω) : GoesThrough [] session [] session
  | announce {plan : Plan σ} {rest : List (Stage σ)} {results : List (PathResult σ)}
      {session session' : Session σ κ ω} :
      GoesThrough rest
        { session with world := logger.log s!"Testing plan: {plan.description}" session.world } results session' →
      GoesThrough (.announce plan :: rest) session results session'
  | path {plan : Plan σ} {path : Path σ} {rest : List (Stage σ)} {result : PathResult σ}
      {results : List (PathResult σ)} {session mid session' : Session σ κ ω} :
      (m.testPath settings path context).run session = (.ok result, mid) →
      GoesThrough rest mid results session' →
      GoesThrough (.path plan path :: rest) session (result :: results) session'

/-- The stages are gone through up to a path of the plan that fails, from where they leave the session. -/
def StopsAt (stages : List (Stage σ)) (session : Session σ κ ω) (plan : Plan σ) (failure : PathFailure σ)
    (session' : Session σ κ ω) : Prop :=
  ∃ before path after results mid, stages = before ++ .path plan path :: after ∧
    GoesThrough m settings context logger before session results mid ∧
    (m.testPath settings path context).run mid = (.error (.path failure), session')

variable {m settings context logger}

theorem GoesThrough.append {first rest : List (Stage σ)} {results more : List (PathResult σ)}
    {session mid session' : Session σ κ ω} (h : GoesThrough m settings context logger first session results mid)
    (h' : GoesThrough m settings context logger rest mid more session') :
    GoesThrough m settings context logger (first ++ rest) session (results ++ more) session' := by
  induction h with
  | nil session => exact h'
  | announce _ ih => exact .announce (ih h')
  | path ran _ ih => exact .path ran (ih h')

/-- What comes later does not matter to a run that has stopped. -/
theorem StopsAt.append {first : List (Stage σ)} {plan : Plan σ} {failure : PathFailure σ}
    {session session' : Session σ κ ω} (h : StopsAt m settings context logger first session plan failure session')
    (rest : List (Stage σ)) : StopsAt m settings context logger (first ++ rest) session plan failure session' := by
  obtain ⟨before, path, after, results, mid, rfl, through, failed⟩ := h
  exact ⟨before, path, after ++ rest, results, mid, List.append_assoc .., through, failed⟩

theorem StopsAt.after {first rest : List (Stage σ)} {results : List (PathResult σ)} {plan : Plan σ}
    {failure : PathFailure σ} {session mid session' : Session σ κ ω}
    (through : GoesThrough m settings context logger first session results mid)
    (h : StopsAt m settings context logger rest mid plan failure session') :
    StopsAt m settings context logger (first ++ rest) session plan failure session' := by
  obtain ⟨before, path, after, more, mid', rfl, through', failed⟩ := h
  exact ⟨first ++ before, path, after, results ++ more, mid', (List.append_assoc ..).symm,
    through.append through', failed⟩

/-! ## Runs -/

variable {D : Directions σ κ γ ω} {o : Options σ κ γ ω}

/-- A path passes, or it fails because a call of its schedule does. -/
theorem testPath_cases {path : Path σ} (resolved : m.resolve settings = .ok o)
    (directs : D.ForPath m.behavior o path) (context : γ) (session : Session σ κ ω) :
    (∃ session', (m.testPath settings path context).run session = (.ok path.passedResult, session')) ∨
      ∃ failure session', (m.testPath settings path context).run session = (.error (.path failure), session') ∧
        failure.path = path ∧ ∃ call ∈ D.schedule o context path, ∃ w w', call.2 w = (.error failure.cause, w') := by
  rw [testPath_run resolved, directs.runPath_run]
  obtain ⟨session', all, -⟩ | ⟨before, p, call, after, mid, f, w, split, -, failed, stop⟩ :=
    perform_cases (D.pathTasks o context path) session
  · rw [all]
    exact .inl ⟨session', rfl⟩
  · obtain ⟨message, -, fails⟩ := directs.fail_run p f
    have listed : (p, call) ∈ D.schedule o context path := by
      rw [← D.calls_pathTasks, split, calls_append]
      exact List.mem_append_right _ List.mem_cons_self
    rw [stop]
    simp only [fails]
    exact .inr ⟨_, _, rfl, rfl, (p, call), listed, mid.world, w, failed⟩

/-- The paths of a plan are run one after the other, up to the first that fails. -/
theorem runPaths_cases (resolved : m.resolve settings = .ok o) (plan : Plan σ) {paths : List (Path σ)}
    (directs : ∀ path ∈ paths, D.ForPath m.behavior o path) (logger : Logger ω) (session : Session σ κ ω) :
    (∃ session', GoesThrough m settings context logger (paths.map (.path plan)) session
        (paths.map Path.passedResult) session' ∧
      (o.runPaths m.behavior plan context paths).run session = (.ok (paths.map Path.passedResult), session')) ∨
    ∃ failure session', StopsAt m settings context logger (paths.map (.path plan)) session plan failure session' ∧
      (o.runPaths m.behavior plan context paths).run session = (.error (.plan plan failure), session') := by
  induction paths generalizing session with
  | nil => exact .inl ⟨session, .nil session, rfl⟩
  | cons path paths ih =>
    rw [List.forall_mem_cons] at directs
    rw [Options.runPaths, run_bind, run_tryCatch, ← testPath_run resolved]
    obtain ⟨mid, ran⟩ | ⟨failure, session', failed, -⟩ :=
      testPath_cases resolved directs.1 context session
    · rw [ran]
      simp only [run_bind]
      obtain ⟨session', through, runs⟩ | ⟨failure, session', stop, runs⟩ := ih directs.2 mid
      · rw [runs]
        exact .inl ⟨session', .path ran through, rfl⟩
      · rw [runs]
        refine .inr ⟨failure, session', ?_, rfl⟩
        exact stop.after (.path ran (.nil mid))
    · rw [failed]
      exact .inr ⟨failure, session', ⟨[], path, paths.map (.path plan), [], session, rfl, .nil session, failed⟩, rfl⟩

theorem testPlan_cases (resolved : m.resolve settings = .ok o) {plan : Plan σ}
    (directs : ∀ path ∈ plan.paths, D.ForPath m.behavior o path) (session : Session σ κ ω) :
    (∃ session', GoesThrough m settings context o.logger (planStages plan) session
        (plan.paths.map Path.passedResult) session' ∧
      (m.testPlan settings plan context).run session = (.ok (plan.paths.map Path.passedResult), session')) ∨
    ∃ failure session', StopsAt m settings context o.logger (planStages plan) session plan failure session' ∧
      (m.testPlan settings plan context).run session = (.error (.plan plan failure), session') := by
  let announced : Session σ κ ω :=
    { session with world := o.logger.log s!"Testing plan: {plan.description}" session.world }
  have run : (m.testPlan settings plan context).run session =
      (o.runPaths m.behavior plan context plan.paths).run announced := by
    rw [TestModel.testPlan, resolved]
    rfl
  have announce : GoesThrough m settings context o.logger [.announce plan] session [] announced :=
    .announce (.nil announced)
  rw [run]
  obtain ⟨session', through, runs⟩ | ⟨failure, session', stop, runs⟩ :=
    runPaths_cases resolved plan directs o.logger announced
  · exact .inl ⟨session', announce.append through, runs⟩
  · exact .inr ⟨failure, session', stop.after announce, runs⟩

/-- Plans are run stage by stage, up to the first path that fails. -/
theorem testPlansGiven_cases (resolved : m.resolve settings = .ok o) {plans : List (Plan σ)}
    (directs : ∀ path ∈ plans.flatMap Plan.paths, D.ForPath m.behavior o path) (context : γ)
    (session : Session σ κ ω) :
    (∃ session', GoesThrough m settings context o.logger (stages plans) session
        ((plans.flatMap Plan.paths).map Path.passedResult) session' ∧
      (m.testPlansGiven settings context plans).run session =
        (.ok ((plans.flatMap Plan.paths).map Path.passedResult), session')) ∨
    ∃ plan failure session', StopsAt m settings context o.logger (stages plans) session plan failure session' ∧
      (m.testPlansGiven settings context plans).run session = (.error (.plan plan failure), session') := by
  induction plans generalizing session with
  | nil => exact .inl ⟨session, .nil session, rfl⟩
  | cons plan plans ih =>
    rw [List.flatMap_cons, List.forall_mem_append] at directs
    rw [TestModel.testPlansGiven, run_bind, stages, List.flatMap_cons, List.flatMap_cons, List.map_append]
    obtain ⟨mid, through, ran⟩ | ⟨failure, session', stop, ran⟩ := testPlan_cases resolved directs.1 session
    · rw [ran]
      simp only [run_bind]
      obtain ⟨session', others, runs⟩ | ⟨failing, failure, session', stop, runs⟩ := ih directs.2 mid
      · rw [runs]
        exact .inl ⟨session', through.append others, rfl⟩
      · rw [runs]
        exact .inr ⟨failing, failure, session', stop.after through, rfl⟩
    · rw [ran]
      exact .inr ⟨plan, failure, session', stop.append _, rfl⟩

/-- **Plans are run path by path, and the first path that fails ends the run.** Either all stages are gone
through, and there is one result for each path of the plans, in order, which has passed. Or the stages before
some path are gone through, and that path is run and fails as it does alone: then the run ends, with the
session as this failure left it. What is reported is the failure of the path, for a call of its schedule that
failed with a fault, and the plan of the path; the message is that of the failure below the description of the
plan. -/
theorem plans_stop_at_first_failed_path (resolved : m.resolve settings = .ok o) {plans : List (Plan σ)}
    (directs : ∀ path ∈ plans.flatMap Plan.paths, D.ForPath m.behavior o path) (context : γ)
    (session : Session σ κ ω) :
    (∃ results session', GoesThrough m settings context o.logger (stages plans) session results session' ∧
        (m.testPlansGiven settings context plans).run session = (.ok results, session') ∧
        results = (plans.flatMap Plan.paths).map Path.passedResult ∧ ∀ result ∈ results, result.passed = true) ∨
      ∃ before plan path after results mid failure session',
        stages plans = before ++ .path plan path :: after ∧
        GoesThrough m settings context o.logger before session results mid ∧
        (m.testPath settings path context).run mid = (.error (.path failure), session') ∧
        (m.testPlansGiven settings context plans).run session = (.error (.plan plan failure), session') ∧
        (RunError.plan plan failure).message = plan.description ++ "\n" ++ failure.message ∧
        failure.path = path ∧
        ∃ call ∈ D.schedule o context path, ∃ w w', call.2 w = (.error failure.cause, w') := by
  obtain ⟨session', through, runs⟩ | ⟨plan, failure, session', stop, runs⟩ :=
    testPlansGiven_cases resolved directs context session
  · refine .inl ⟨_, session', through, runs, rfl, fun result mem => ?_⟩
    obtain ⟨path, -, rfl⟩ := List.mem_map.1 mem
    exact passed_of_all path.steps
  · obtain ⟨before, path, after, results, mid, split, through, failed⟩ := stop
    have listed : path ∈ plans.flatMap Plan.paths := by
      have staged : .path plan path ∈ stages plans := split ▸ List.mem_append_right before List.mem_cons_self
      rw [← paths_stages]
      exact List.mem_filterMap.2 ⟨.path plan path, staged, rfl⟩
    obtain ⟨_, passed⟩ | ⟨failure', _, failed', blamed⟩ :=
      testPath_cases resolved (directs path listed) context mid
    · cases failed.symm.trans passed
    · cases failed.symm.trans failed'
      exact .inr ⟨before, plan, path, after, results, mid, failure, session', split, through, failed, runs, rfl, blamed⟩

end

/-! ## An outing -/

/-- The carousel that jams, with a logger that writes down what it is told. -/
def outingOptions : Options (Search.Place × Nat) String String CallLog :=
  { rideOptions with
    eventKey := fun e => .ok (if Search.skips e then "skip" else "step")
    logger := { log := fun text log => log ++ [("", text)], error := fun _ log => log ++ [("", "failed")] } }

def outing : TestModel (Search.Place × Nat) String String CallLog := ⟨Search.carousel, .ok outingOptions⟩

def stayPlan : Plan (Search.Place × Nat) where
  state := (.first, 0)
  paths := []
  description := "stay"

def forthPlan : Plan (Search.Place × Nat) where
  state := (.second, 1)
  paths := [⟨(.second, 1), [⟨(.first, 0), .ofType "step"⟩], 1, "via step"⟩]
  description := "forth"

def backPlan : Plan (Search.Place × Nat) where
  state := (.first, 2)
  paths := [roundTrip, roundTrip]
  description := "forth and back"

def outingPlans : List (Plan (Search.Place × Nat)) := [stayPlan, forthPlan, backPlan, forthPlan]

/-- The plan that failed, its path, and the place in it. -/
def planFailureShape {σ α : Type} : Except (RunError σ) α → Option (String × String × Option Nat)
  | .error (.plan plan failure) => some (plan.description, failure.path.description, failure.stepIndex)
  | _ => none

theorem outing_forState (s : Search.Place × Nat) :
    (Directions.answers Search.carousel outingOptions).ForState Search.carousel outingOptions s :=
  Directions.forState_answers (fun _ _ _ => ⟨_, rfl⟩) ⟨_, rfl⟩ ⟨_, rfl⟩

theorem outing_forPath {path : Path (Search.Place × Nat)}
    (types : ∀ step ∈ path.steps, step.event.type = .text "step" ∨ step.event.type = .text "skip") :
    (Directions.answers Search.carousel outingOptions).ForPath Search.carousel outingOptions path where
  states step _ := outing_forState step.state
  events step mem := by
    refine Directions.forEvent_answers ?_ ⟨_, rfl⟩ ⟨_, rfl⟩
    obtain type | type := types step mem <;> rw [type] <;> exact ⟨_, rfl⟩
  target := outing_forState _

theorem outingPlans_forPath : ∀ path ∈ outingPlans.flatMap Plan.paths,
    (Directions.answers Search.carousel outingOptions).ForPath Search.carousel outingOptions path := by
  intro path mem
  apply outing_forPath
  simp only [outingPlans, stayPlan, forthPlan, backPlan, List.flatMap_cons, List.flatMap_nil, List.nil_append,
    List.cons_append, List.mem_cons, List.not_mem_nil, or_false] at mem
  obtain rfl | rfl | rfl | rfl := mem <;> simp [roundTrip, Event.ofType]

/-- A plan without paths is announced like any other. The outing ends when the carousel jams on the way back,
with the way forth covered: the second way back is not tried, and the last plan not even announced. -/
theorem outing_stops_at_jam :
    ∃ plan failure session',
      (outing.testPlansGiven [] "page" outingPlans).run ⟨{}, []⟩ = (.error (.plan plan failure), session') ∧
      plan.description = "forth and back" ∧ failure.path.description = "via step -> skip" ∧
      failure.stepIndex = some 1 ∧
      (RunError.plan plan failure).message = plan.description ++ "\n" ++ failure.message ∧
      session'.world = [("", "Testing plan: stay"), ("", "Testing plan: forth"), ("page", "elsewhere"),
        ("page", "step"), ("page", "moved"), ("page", "at second"), ("", "Testing plan: forth and back"),
        ("page", "elsewhere"), ("page", "step"), ("page", "moved"), ("page", "at second"), ("page", "jam"),
        ("", "failed")] ∧
      session'.coverage.transitionCount "first | step" = 2 := by
  have resolved : outing.resolve [] = .ok outingOptions := rfl
  have shown : planFailureShape ((outing.testPlansGiven [] "page" outingPlans).run ⟨{}, []⟩).1 =
      some ("forth and back", "via step -> skip", some 1) := by
    decide
  have left : (((outing.testPlansGiven [] "page" outingPlans).run ⟨{}, []⟩).2.world,
      ((outing.testPlansGiven [] "page" outingPlans).run ⟨{}, []⟩).2.coverage.transitionCount "first | step") =
      ([("", "Testing plan: stay"), ("", "Testing plan: forth"), ("page", "elsewhere"),
        ("page", "step"), ("page", "moved"), ("page", "at second"), ("", "Testing plan: forth and back"),
        ("page", "elsewhere"), ("page", "step"), ("page", "moved"), ("page", "at second"), ("page", "jam"),
        ("", "failed")], 2) := by
    decide
  obtain ⟨results, session', -, run, -⟩ |
      ⟨-, plan, -, -, -, -, failure, session', -, -, -, run, message, -⟩ :=
    plans_stop_at_first_failed_path resolved outingPlans_forPath "page" ⟨{}, []⟩
  · rw [run] at shown
    cases shown
  · rw [run] at shown left
    obtain ⟨description, inPath⟩ := Prod.mk.inj (Option.some.inj shown)
    obtain ⟨path, index⟩ := Prod.mk.inj inPath
    obtain ⟨world, counted⟩ := Prod.mk.inj left
    exact ⟨plan, failure, session', run, description, path, index, message, world, counted⟩

end Model

end StateWalk
