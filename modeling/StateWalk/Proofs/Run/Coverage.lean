import StateWalk.Proofs.Run.Replay

/-!
# What runs count

Tasks that are all done count every state that they verify and every step that they perform, as often as
they do (`stateCount_countAll`, `transitionCount_countAll`). A path that nothing stops does all of its tasks,
and so do the paths of plans, one after the other. So a run of plans counts the states and the steps of all
their paths (`testPlansGiven_run`).
-/

namespace StateWalk

/-- The states that a path leads through, the last one included. -/
def Path.states {σ : Type} (p : Path σ) : List σ := p.steps.map Step.state ++ [p.state]

namespace Model

variable {σ κ γ ω ι : Type}

/-! ## Counting -/

namespace Count

/-- The key of the state that is counted. -/
def stateKey? : Count σ κ → Option κ
  | state key _ => some key
  | transition _ _ => none

end Count

section

variable [KeyType κ]

theorem stateCount_countAll [LawfulKeyType κ] [DecidableEq κ] (tasks : List (ι × Task σ κ ω))
    (c : Coverage σ κ) (key : κ) :
    (countAll tasks c).stateCount key =
      c.stateCount key + ((counts tasks).filterMap Count.stateKey?).count key := by
  rw [countAll]
  generalize counts tasks = visits
  induction visits generalizing c with
  | nil => rfl
  | cons visit visits ih =>
    rw [List.foldl_cons, ih]
    cases visit with
    | state visited s =>
      have more : (Count.added c (.state visited s)).stateCount key =
          c.stateCount key + if visited = key then 1 else 0 := Tally.count_record ..
      have keys : (Count.state visited s :: visits).filterMap Count.stateKey? =
          visited :: visits.filterMap Count.stateKey? := rfl
      rw [more, keys, List.count_cons, Nat.add_assoc]
      simp only [beq_iff_eq, Nat.add_comm]
    | transition _ _ => rfl

end

/-! ## Tasks that are all done -/

/-- The action succeeds in every world. -/
def Succeeds (a : Action ω) : Prop := ∀ w, ∃ w', a w = (.ok (), w')

theorem perform_of_succeeds [KeyType κ] {tasks : List (ι × Task σ κ ω)}
    (h : ∀ call ∈ calls tasks, Succeeds call.2) (session : Session σ κ ω) :
    ∃ session', perform tasks session = (none, session') ∧
      session'.coverage = countAll tasks session.coverage := by
  obtain ⟨session', run, done⟩ | ⟨before, i, a, after, mid, f, w, rfl, -, failed, -⟩ :=
    perform_cases tasks session
  · exact ⟨session', run, done.counted⟩
  · have mem : (i, a) ∈ calls (before ++ (i, .call a) :: after) := by
      rw [calls_append]
      exact List.mem_append_right _ List.mem_cons_self
    obtain ⟨w', succeeded⟩ := h (i, a) mem mid.world
    cases failed.symm.trans succeeded

theorem run_tryCatch {ε S α : Type} (x : ExceptT ε (StateM S) α) (handler : ε → ExceptT ε (StateM S) α)
    (s : S) :
    (tryCatch x handler).run s =
      match x.run s with
      | (.ok a, t) => (.ok a, t)
      | (.error e, t) => (handler e).run t := by
  change ((match (x.run s).1 with
    | .ok a => pure (.ok a)
    | .error e => handler e : StateM S (Except ε α))) (x.run s).2 = _
  rcases x.run s with ⟨_ | _, t⟩ <;> rfl

theorem run_tryCatch_ok {ε S α : Type} {x : ExceptT ε (StateM S) α} {handler : ε → ExceptT ε (StateM S) α}
    {s t : S} {a : α} (h : x.run s = (.ok a, t)) : (tryCatch x handler).run s = (.ok a, t) := by
  rw [run_tryCatch, h]

namespace Directions

variable [KeyType κ] {D : Directions σ κ γ ω} {o : Options σ κ γ ω} {b : Behavior σ κ} {context : γ}

/-! ## The visits of a path -/

/-- What a run of the path counts. -/
def visits (D : Directions σ κ γ ω) (path : Path σ) : List (Count σ κ) :=
  (path.steps.flatMap fun step =>
    [.state (D.stateKey step.state) step.state, .transition (D.stepKey step) step]) ++
      [.state (D.stateKey path.state) path.state]

omit [KeyType κ] in
theorem counts_stateTasks (s : σ) (p : Position) :
    counts ((D.stateTasks o context s).map (Prod.mk p)) = [.state (D.stateKey s) s] := by
  simp [counts, stateTasks, Task.count?, List.filterMap_map, Function.comp_def]

theorem counts_eventTasks (step : Step σ) (p : Position) :
    counts ((D.eventTasks o context step).map (Prod.mk p)) = [.transition (D.stepKey step) step] := by
  simp [counts, eventTasks, Task.count?, List.filterMap_map, Function.comp_def]

theorem counts_stepTasks (i : Nat) (steps : List (Step σ)) :
    counts (D.stepTasks o context i steps) = steps.flatMap fun step =>
      [.state (D.stateKey step.state) step.state, .transition (D.stepKey step) step] := by
  induction steps generalizing i with
  | nil => rfl
  | cons step steps ih =>
    rw [stepTasks, counts_append, counts_append, counts_stateTasks, counts_eventTasks, ih]
    rfl

theorem counts_pathTasks (path : Path σ) : counts (D.pathTasks o context path) = D.visits path := by
  rw [pathTasks, counts_append, counts_stepTasks, counts_stateTasks, visits]

/-- The states of a path are counted, one after the other. -/
theorem stateKeys_visits (path : Path σ) :
    (D.visits path).filterMap Count.stateKey? = path.states.map D.stateKey := by
  rw [visits, List.filterMap_append, List.filterMap_flatMap, Path.states, List.map_append, List.map_map,
    List.map_eq_flatMap]
  rfl

/-- Nothing stops a run of the path: whatever is asked answers, and whatever is called succeeds. -/
structure RunsThrough (D : Directions σ κ γ ω) (b : Behavior σ κ) (o : Options σ κ γ ω) (context : γ)
    (path : Path σ) : Prop where
  directs : D.ForPath b o path
  succeeds : ∀ call ∈ D.schedule o context path, Succeeds call.2

/-- The tasks of paths, one path after the other. -/
def allTasks (D : Directions σ κ γ ω) (o : Options σ κ γ ω) (context : γ) (paths : List (Path σ)) :
    List (Position × Task σ κ ω) :=
  paths.flatMap (D.pathTasks o context)

theorem RunsThrough.runPath_run {path : Path σ} (h : D.RunsThrough b o context path)
    (session : Session σ κ ω) :
    ∃ result session', (o.runPath b path context).run session = (.ok result, session') ∧
      session'.coverage = countAll (D.pathTasks o context path) session.coverage := by
  obtain ⟨session', run, counted⟩ :=
    perform_of_succeeds (D.calls_pathTasks context path ▸ h.succeeds) session
  rw [h.directs.runPath_run, run]
  exact ⟨_, session', rfl, counted⟩

theorem runPaths_run (plan : Plan σ) {paths : List (Path σ)}
    (h : ∀ path ∈ paths, D.RunsThrough b o context path) (session : Session σ κ ω) :
    ∃ results session', (o.runPaths b plan context paths).run session = (.ok results, session') ∧
      session'.coverage = countAll (D.allTasks o context paths) session.coverage := by
  induction paths generalizing session with
  | nil => exact ⟨[], session, rfl, rfl⟩
  | cons path paths ih =>
    rw [List.forall_mem_cons] at h
    obtain ⟨result, session₁, run, counted⟩ := h.1.runPath_run session
    obtain ⟨results, session₂, runs, all⟩ := ih h.2 session₁
    rw [Options.runPaths, run_bind, run_tryCatch_ok run]
    simp only [run_bind, runs]
    refine ⟨_, session₂, rfl, ?_⟩
    rw [all, counted, allTasks, allTasks, List.flatMap_cons, countAll_append]

theorem counts_allTasks (paths : List (Path σ)) :
    counts (D.allTasks o context paths) = paths.flatMap D.visits := by
  rw [allTasks, counts, List.filterMap_flatMap]
  exact congrArg paths.flatMap (funext counts_pathTasks)

/-- From nothing, coverage comes to count the keys of exactly the states that the paths lead through. -/
theorem stateCount_pos_iff [LawfulKeyType κ] {paths : List (Path σ)} {key : κ} :
    0 < (countAll (D.allTasks o context paths) {}).stateCount key ↔
      ∃ path ∈ paths, ∃ s ∈ path.states, D.stateKey s = key := by
  classical
  have empty : ({} : Coverage σ κ).stateCount key = 0 := rfl
  rw [stateCount_countAll, empty, Nat.zero_add, List.count_pos_iff, counts_allTasks,
    List.filterMap_flatMap]
  simp only [stateKeys_visits, List.mem_flatMap, List.mem_map]

/-- Running plans does the tasks of all their paths. -/
theorem testPlansGiven_run {m : TestModel σ κ γ ω} {settings : List (Setting σ κ γ ω)}
    (resolved : m.resolve settings = .ok o) {plans : List (Plan σ)}
    (h : ∀ path ∈ plans.flatMap Plan.paths, D.RunsThrough m.behavior o context path)
    (session : Session σ κ ω) :
    ∃ results session', (m.testPlansGiven settings context plans).run session = (.ok results, session') ∧
      session'.coverage =
        countAll (D.allTasks o context (plans.flatMap Plan.paths)) session.coverage := by
  induction plans generalizing session with
  | nil => exact ⟨[], session, rfl, rfl⟩
  | cons plan plans ih =>
    rw [List.flatMap_cons, List.forall_mem_append] at h
    let logged : Session σ κ ω :=
      { session with world := o.logger.log s!"Testing plan: {plan.description}" session.world }
    obtain ⟨results₁, session₁, run, counted⟩ := runPaths_run plan h.1 logged
    obtain ⟨results₂, session₂, runs, all⟩ := ih h.2 session₁
    have first : (m.testPlan settings plan context).run session = (.ok results₁, session₁) := by
      rw [TestModel.testPlan, resolved, ← run]
      rfl
    rw [TestModel.testPlansGiven, run_bind, first]
    simp only [run_bind, runs]
    refine ⟨_, session₂, rfl, ?_⟩
    rw [all, counted, List.flatMap_cons, allTasks, allTasks, allTasks, List.flatMap_append, countAll_append]

end Directions

end Model

end StateWalk
