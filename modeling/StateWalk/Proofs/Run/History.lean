import StateWalk.Model.History
import StateWalk.Proofs.Model.Criteria
import StateWalk.Proofs.Run.Coverage

/-!
# Exact coverage

A run of any kind attempts its parts one after the other, until one fails: it verifies states and performs
the events of steps. `attempts` lists what an operation attempts, each with the world that it begins in.

A state is counted once its tests succeeded, whatever `afterState` does then; a step is counted once its
executor and `afterTransition` succeeded (`checkPart_adds`). So coverage counts, over any history of
operations, exactly the attempts since the last reset that got that far
(`coverage_counts_completed_attempts`).
-/

namespace StateWalk

open Outcome Model

/-- What a run does at one time: it verifies a state, or performs the event of a step. -/
inductive Part (σ : Type) where
  | state (s : σ)
  | transition (step : Step σ)

/-- What a run of the path does if nothing fails. -/
def Path.parts {σ : Type} (p : Path σ) : List (Part σ) :=
  (p.steps.flatMap fun step => [.state step.state, .transition step]) ++ [.state p.state]

namespace Model

variable {σ κ γ ω ι : Type}

/-! ## Attempts -/

/-- A part of a run as it is begun. -/
structure Attempt (σ κ γ ω : Type) where
  options : Options σ κ γ ω
  context : γ
  part : Part σ
  world : ω

/-- The calls all succeed when they are made one after the other from this world on. -/
def Completes (calls : List (Action ω)) (w : ω) : Prop := ∃ w', Succeed calls w w'

namespace Attempt

variable [KeyType κ]

/-- A state of this key is verified: its tests all succeed. -/
def Verifies (b : Behavior σ κ) (key : κ) (a : Attempt σ κ γ ω) : Prop :=
  ∃ s tests, a.part = .state s ∧ a.options.stateKey s none = .ok key ∧
    a.options.selectedTests b s = .ok tests ∧
    Completes (tests.map fun test => test s a.context) a.world

/-- A step of this key is performed: its executor and `afterTransition` succeed. -/
def Performs (key : String) (a : Attempt σ κ γ ω) : Prop :=
  ∃ step exec, a.part = .transition step ∧ TestModel.stepKey a.options.toOptions step = .ok key ∧
    a.options.executor? step.event.type = .ok exec ∧
    Completes ((exec.toList ++ a.options.afterTransition.toList).map fun call => call step a.context) a.world

end Attempt

/-- What is attempted when things are run one after the other, until one of them fails. -/
def attemptsInTurn {ε α : Type} (run : ι → ExceptT ε (StateM (Session σ κ ω)) α)
    (attempts : ι → Session σ κ ω → List (Attempt σ κ γ ω)) :
    List ι → Session σ κ ω → List (Attempt σ κ γ ω)
  | [], _ => []
  | i :: rest, session =>
    attempts i session ++
      match (run i).run session with
      | (.ok _, session) => attemptsInTurn run attempts rest session
      | (.error _, _) => []

section

variable [KeyType κ]

/-- Verify a state or perform a step. -/
def Options.checkPart (o : Options σ κ γ ω) (b : Behavior σ κ) (context : γ) : Part σ → Check σ κ ω Unit
  | .state s => o.checkState b s context
  | .transition step => o.checkTransition step context

/-- What a run of a path attempts. -/
def pathAttempts (o : Options σ κ γ ω) (b : Behavior σ κ) (context : γ) (path : Path σ) :
    Session σ κ ω → List (Attempt σ κ γ ω) :=
  attemptsInTurn (o.checkPart b context) (fun part session => [⟨o, context, part, session.world⟩]) path.parts

/-- What a run of a plan attempts, which is logged before. -/
def planAttempts (o : Options σ κ γ ω) (b : Behavior σ κ) (context : γ) (plan : Plan σ)
    (session : Session σ κ ω) : List (Attempt σ κ γ ω) :=
  attemptsInTurn (fun path => o.runPath b path context) (pathAttempts o b context) plan.paths
    { session with world := o.logger.log s!"Testing plan: {plan.description}" session.world }

/-- What is attempted with the options of a call, if there are any. -/
def attemptsWith (m : TestModel σ κ γ ω) (settings : List (Setting σ κ γ ω))
    (attempts : Options σ κ γ ω → List (Attempt σ κ γ ω)) : List (Attempt σ κ γ ω) :=
  match m.resolve settings with
  | .ok o => attempts o
  | .error _ => []

/-- What a run of plans attempts. -/
def plansAttempts (m : TestModel σ κ γ ω) (settings : List (Setting σ κ γ ω)) (context : γ) :
    List (Plan σ) → Session σ κ ω → List (Attempt σ κ γ ω) :=
  attemptsInTurn (fun plan => m.testPlan settings plan context) fun plan session =>
    attemptsWith m settings fun o => planAttempts o m.behavior context plan session

/-- What an operation attempts. -/
def Operation.attempts (m : TestModel σ κ γ ω) (session : Session σ κ ω) :
    Operation σ κ γ ω → List (Attempt σ κ γ ω)
  | testState settings s context =>
    attemptsWith m settings fun o => [⟨o, context, .state s, session.world⟩]
  | testTransition settings step context =>
    attemptsWith m settings fun o => [⟨o, context, .transition step, session.world⟩]
  | testPath settings path context =>
    attemptsWith m settings fun o => pathAttempts o m.behavior context path session
  | testPlan settings plan context =>
    attemptsWith m settings fun o => planAttempts o m.behavior context plan session
  | testPlansGiven settings plans context => plansAttempts m settings context plans session
  | testPlans settings maximal context =>
    match m.plans settings maximal with
    | .ok plans => plansAttempts m settings context plans session
    | .error _ => []
  | ask _ | resetCoverage | meanwhile _ => []

/-- What operations attempt since the last reset among them; what was attempted earlier counts if there is
none. -/
def attemptsSinceReset (m : TestModel σ κ γ ω) :
    (earlier : List (Attempt σ κ γ ω)) → List (Operation σ κ γ ω) → Session σ κ ω → List (Attempt σ κ γ ω)
  | earlier, [], _ => earlier
  | earlier, op :: ops, session =>
    let next := ((op.run m).run session).2
    match op with
    | .resetCoverage => attemptsSinceReset m [] ops next
    | op => attemptsSinceReset m (earlier ++ op.attempts m session) ops next

/-! ## What a part adds -/

open Classical in
/-- The coverage comes to count the attempts, beside what it counted before. -/
structure Adds (b : Behavior σ κ) (attempts : List (Attempt σ κ γ ω)) (c c' : Coverage σ κ) : Prop where
  states : ∀ key, c'.stateCount key =
    c.stateCount key + attempts.countP fun a => decide (a.Verifies b key)
  transitions : ∀ key, c'.transitionCount key =
    c.transitionCount key + attempts.countP fun a => decide (a.Performs key)

end

theorem not_completes_of_failed {before after : List (Action ω)} {call : Action ω} {w mid w' : ω} {f : Fault}
    (succeed : Succeed before w mid) (failed : call mid = (.error f, w')) :
    ¬ Completes (before ++ call :: after) w := by
  induction succeed with
  | nil w =>
    rintro ⟨_, all⟩
    cases all with
    | cons ok _ => cases failed.symm.trans ok
  | cons called _ ih =>
    rintro ⟨_, all⟩
    cases all with
    | cons ok rest =>
      cases called.symm.trans ok
      exact ih failed ⟨_, rest⟩

/-- All calls are made, or one of them fails and they do not complete. -/
theorem forM_act_cases (calls : List (Action ω)) (session : Session σ κ ω) :
    (∃ w, Succeed calls session.world w ∧
        (calls.forM Check.act : Check σ κ ω Unit).run session = (.ok (), { session with world := w })) ∨
      ¬ Completes calls session.world ∧ ∃ f w,
        (calls.forM Check.act : Check σ κ ω Unit).run session = (.error f, { session with world := w }) := by
  refine (forM_act_split calls session).imp_right ?_
  rintro ⟨before, call, after, mid, f, w, rfl, succeed, failed, run⟩
  exact ⟨not_completes_of_failed succeed failed, f, w, run⟩

open Classical in
/-- One more visit is one more attempt, if the attempt is for its key and for no other. -/
theorem count_record_attempt {α τ : Type} [KeyType τ] [LawfulKeyType τ] {P : τ → Attempt σ κ γ ω → Prop}
    {a : Attempt σ κ γ ω} {key : τ} (only : ∀ other, P other a ↔ key = other) (t : Tally τ α) (subject : α)
    (other : τ) :
    (t.record key subject).count other = t.count other + [a].countP fun a => decide (P other a) := by
  rw [Tally.count_record, List.countP_singleton]
  simp only [only, decide_eq_true_eq]

theorem Check.ofExcept_run {α : Type} (r : Except Fault α) (session : Session σ κ ω) :
    (Check.ofExcept r : Check σ κ ω α).run session = (r, session) := rfl

section

variable [KeyType κ] {o : Options σ κ γ ω} {b : Behavior σ κ} {context : γ}

namespace Attempt

theorem verifies_state_iff {s : σ} {w : ω} {key : κ} :
    (Attempt.mk o context (.state s) w).Verifies b key ↔ o.stateKey s none = .ok key ∧
      ∃ tests, o.selectedTests b s = .ok tests ∧ Completes (tests.map fun test => test s context) w := by
  constructor
  · rintro ⟨_, tests, part, keyed, selected, completes⟩
    cases part
    exact ⟨keyed, tests, selected, completes⟩
  · rintro ⟨keyed, tests, selected, completes⟩
    exact ⟨s, tests, rfl, keyed, selected, completes⟩

theorem performs_transition_iff {step : Step σ} {w : ω} {key : String} :
    (Attempt.mk o context (.transition step) w).Performs key ↔ TestModel.stepKey o.toOptions step = .ok key ∧
      ∃ exec, o.executor? step.event.type = .ok exec ∧
        Completes ((exec.toList ++ o.afterTransition.toList).map fun call => call step context) w := by
  constructor
  · rintro ⟨_, exec, part, keyed, found, completes⟩
    cases part
    exact ⟨keyed, exec, found, completes⟩
  · rintro ⟨keyed, exec, found, completes⟩
    exact ⟨step, exec, rfl, keyed, found, completes⟩

theorem not_verifies_transition (step : Step σ) (w : ω) (key : κ) :
    ¬ (Attempt.mk o context (.transition step) w).Verifies b key := by
  rintro ⟨_, _, part, -⟩
  cases part

theorem not_performs_state (s : σ) (w : ω) (key : String) :
    ¬ (Attempt.mk o context (.state s) w).Performs key := by
  rintro ⟨_, _, part, -⟩
  cases part

end Attempt

theorem Adds.nil (c : Coverage σ κ) : Adds (γ := γ) (ω := ω) b [] c c := ⟨fun _ => rfl, fun _ => rfl⟩

theorem Adds.append {attempts more : List (Attempt σ κ γ ω)} {c c' c'' : Coverage σ κ}
    (h : Adds b attempts c c') (h' : Adds b more c' c'') : Adds b (attempts ++ more) c c'' := by
  constructor
  · intro key
    rw [h'.states, h.states, List.countP_append, Nat.add_assoc]
  · intro key
    rw [h'.transitions, h.transitions, List.countP_append, Nat.add_assoc]

/-- Nothing is added by an attempt that gets not far enough. -/
theorem Adds.of_neither {a : Attempt σ κ γ ω} (unverified : ∀ key, ¬ a.Verifies b key)
    (unperformed : ∀ key, ¬ a.Performs key) (c : Coverage σ κ) : Adds b [a] c c := by
  constructor
  · intro key
    simp [unverified key]
  · intro key
    simp [unperformed key]

/-- Performing an event counts its step if executor and `afterTransition` succeed, and else nothing. -/
theorem checkTransition_adds (step : Step σ) (session : Session σ κ ω) :
    Adds b [Attempt.mk o context (.transition step) session.world] session.coverage
      ((o.checkTransition step context).run session).2.coverage := by
  have nothing : (∀ key, ¬ (Attempt.mk o context (.transition step) session.world).Performs key) →
      Adds b [Attempt.mk o context (.transition step) session.world] session.coverage session.coverage :=
    fun unperformed => .of_neither (Attempt.not_verifies_transition step session.world) unperformed _
  simp only [Attempt.performs_transition_iff] at nothing
  cases found : o.executor? step.event.type with
  | error f =>
    rw [Options.checkTransition, found]
    refine nothing ?_
    rintro key ⟨-, _, found', -⟩
    cases found.symm.trans found'
  | ok exec =>
    have calls : o.checkTransition step context = (do
        (exec.toList ++ o.afterTransition.toList).map (fun call => call step context) |>.forM Check.act
        let key ← Check.ofExcept (TestModel.stepKey o.toOptions step)
        Check.cover fun c => c.addTransition key step) := by
      rw [Options.checkTransition, found]
      cases exec <;> cases o.afterTransition <;> simp [Check.ofExcept_ok]
    rw [calls, run_bind]
    obtain ⟨w, succeed, run⟩ | ⟨stopped, f, w, run⟩ :=
      forM_act_cases ((exec.toList ++ o.afterTransition.toList).map fun call => call step context) session
    · rw [run]
      simp only [run_bind, Check.ofExcept_run]
      cases keyed : TestModel.stepKey o.toOptions step with
      | error f =>
        refine nothing ?_
        rintro key ⟨keyed', -⟩
        cases keyed.symm.trans keyed'
      | ok key =>
        have only : ∀ other, (Attempt.mk o context (.transition step) session.world).Performs other ↔
            key = other := by
          intro other
          rw [Attempt.performs_transition_iff, keyed, Except.ok.injEq, and_iff_left ⟨exec, found, w, succeed⟩]
        refine ⟨fun other => ?_, count_record_attempt only _ step⟩
        simp only [List.countP_singleton, Attempt.not_verifies_transition, decide_false, Bool.false_eq_true,
          if_false]
        rfl
    · rw [run]
      refine nothing ?_
      rintro key ⟨-, _, found', completes⟩
      cases found.symm.trans found'
      exact stopped completes

variable [LawfulKeyType κ]

/-- Verifying a state counts it if its tests all succeed, and else nothing. -/
theorem checkState_adds (s : σ) (session : Session σ κ ω) :
    Adds b [Attempt.mk o context (.state s) session.world] session.coverage
      ((o.checkState b s context).run session).2.coverage := by
  have nothing : (∀ key, ¬ (Attempt.mk o context (.state s) session.world).Verifies b key) →
      Adds b [Attempt.mk o context (.state s) session.world] session.coverage session.coverage :=
    fun unverified => .of_neither unverified (Attempt.not_performs_state s session.world) _
  simp only [Attempt.verifies_state_iff] at nothing
  rw [Options.checkState, run_bind, Check.ofExcept_run]
  cases selected : o.selectedTests b s with
  | error f =>
    refine nothing ?_
    rintro key ⟨-, _, selected', -⟩
    cases selected.symm.trans selected'
  | ok tests =>
    have calls : (tests.forM fun test => Check.act (test s context) : Check σ κ ω Unit) =
        (tests.map fun test => test s context).forM Check.act := by
      rw [List.forM_eq_forM, List.forM_eq_forM, List.forM_map]
    simp only [run_bind, calls]
    obtain ⟨w, succeed, run⟩ | ⟨stopped, f, w, run⟩ :=
      forM_act_cases (tests.map fun test => test s context) session
    · rw [run, Search.nodeKey_eq_stateKey]
      simp only [Check.ofExcept_run]
      cases keyed : o.stateKey s none with
      | error f =>
        refine nothing ?_
        rintro key ⟨keyed', -⟩
        cases keyed.symm.trans keyed'
      | ok key =>
        have only : ∀ other, (Attempt.mk o context (.state s) session.world).Verifies b other ↔
            key = other := by
          intro other
          rw [Attempt.verifies_state_iff, keyed, Except.ok.injEq, and_iff_left ⟨tests, selected, w, succeed⟩]
        have counted : Adds b [Attempt.mk o context (.state s) session.world] session.coverage
            (session.coverage.addState key s) := by
          refine ⟨count_record_attempt only _ s, fun other => ?_⟩
          simp only [List.countP_singleton, Attempt.not_performs_state, decide_false, Bool.false_eq_true,
            if_false]
          rfl
        -- nothing that `afterState` does changes what is counted
        cases o.afterState <;> exact counted
    · rw [run]
      refine nothing ?_
      rintro key ⟨-, _, selected', completes⟩
      cases selected.symm.trans selected'
      exact stopped completes

/-- A part of a run adds itself, if it gets far enough. -/
theorem checkPart_adds (part : Part σ) (session : Session σ κ ω) :
    Adds b [Attempt.mk o context part session.world] session.coverage
      ((o.checkPart b context part).run session).2.coverage := by
  cases part with
  | state s => exact checkState_adds s session
  | transition step => exact checkTransition_adds step session

end

/-! ## What runs add -/

section

variable [KeyType κ] {o : Options σ κ γ ω} {b : Behavior σ κ} {context : γ}

/-- Things that are run one after the other add what each of them adds, whatever else `all` does around
them. -/
theorem adds_inTurn {ε ε' α β : Type} {run : ι → ExceptT ε (StateM (Session σ κ ω)) α}
    {attempts : ι → Session σ κ ω → List (Attempt σ κ γ ω)}
    (all : List ι → ExceptT ε' (StateM (Session σ κ ω)) β)
    (one : ∀ i session, Adds b (attempts i session) session.coverage ((run i).run session).2.coverage)
    (nil : ∀ session, ((all []).run session).2 = session)
    (ok : ∀ {i rest session a next}, (run i).run session = (.ok a, next) →
      ((all (i :: rest)).run session).2 = ((all rest).run next).2)
    (error : ∀ {i rest session e next}, (run i).run session = (.error e, next) →
      ((all (i :: rest)).run session).2.coverage = next.coverage)
    (items : List ι) (session : Session σ κ ω) :
    Adds b (attemptsInTurn run attempts items session) session.coverage
      ((all items).run session).2.coverage := by
  induction items generalizing session with
  | nil =>
    rw [nil]
    exact .nil _
  | cons i rest ih =>
    have first := one i session
    rw [attemptsInTurn]
    -- the others are attempted only if the first one returns, and from where it leaves the session
    rcases ran : (run i).run session with ⟨e | a, next⟩
    · rw [ran] at first
      rw [error ran]
      simpa using first
    · rw [ran] at first
      rw [ok ran]
      exact first.append (ih next)

/-- Two runs go the same way: both succeed in the same session, or both fail with the same coverage. -/
inductive Alike {ε ε' α β : Type} : Except ε α × Session σ κ ω → Except ε' β × Session σ κ ω → Prop where
  | ok (a : α) (b : β) (session : Session σ κ ω) : Alike (.ok a, session) (.ok b, session)
  | error (e : ε) (e' : ε') {session session' : Session σ κ ω} :
      session.coverage = session'.coverage → Alike (.error e, session) (.error e', session')

omit [KeyType κ] in
theorem Alike.coverage_eq {ε ε' α β : Type} {r : Except ε α × Session σ κ ω}
    {r' : Except ε' β × Session σ κ ω} (h : Alike r r') : r.2.coverage = r'.2.coverage := by
  cases h with
  | ok => rfl
  | error _ _ same => exact same

/-- Reporting a failure ends the run, and counts nothing. -/
theorem fail_alike {ε α β : Type} (path : Path σ) (result : PathResult σ) (i : Option Nat) (cause : Fault)
    (e : ε) (session : Session σ κ ω) :
    Alike ((o.fail b path result i cause : Run σ κ ω α).run session)
      ((.error e, session) : Except ε β × Session σ κ ω) := by
  rw [Options.fail]
  cases o.failureMessage b path result i cause with
  | error f => exact .error _ _ rfl
  | ok message => exact .error _ _ rfl

variable (o b context) in
/-- Running steps is to do their parts in turn. -/
theorem runSteps_alike (path : Path σ) (done : List (StepResult σ)) (steps : List (Step σ))
    (session : Session σ κ ω) :
    Alike ((o.runSteps b path context done steps).run session)
      (((steps.flatMap fun step => [.state step.state, .transition step]).forM (o.checkPart b context)).run
        session) := by
  induction steps generalizing done session with
  | nil => exact .ok ..
  | cons step steps ih =>
    rw [Options.runSteps, run_bind, attempt_run, List.flatMap_cons, List.forM_eq_forM, List.forM_append,
      List.forM_cons, bind_assoc, run_bind]
    simp only [Options.checkPart]
    -- a failure that is caught and reported ends the steps just where it ends their parts
    rcases (o.checkState b step.state context).run session with ⟨f | ⟨⟨⟩⟩, session⟩
    · exact fail_alike ..
    · simp only [List.forM_cons, List.forM_nil, bind_pure_unit, run_bind, attempt_run, Options.checkPart]
      rcases (o.checkTransition step context).run session with ⟨f | ⟨⟨⟩⟩, session⟩
      · exact fail_alike ..
      · exact ih ..

/-- Running a path is to do its parts in turn. -/
theorem runPath_alike (path : Path σ) (session : Session σ κ ω) :
    Alike ((o.runPath b path context).run session)
      ((path.parts.forM (o.checkPart b context)).run session) := by
  have steps := runSteps_alike o b context path [] path.steps session
  rw [List.forM_eq_forM] at steps
  rw [Options.runPath, run_bind, Path.parts, List.forM_eq_forM, List.forM_append, run_bind]
  generalize (o.runSteps b path context [] path.steps).run session = r at steps ⊢
  generalize (forM (path.steps.flatMap fun step => [Part.state step.state, .transition step])
    (o.checkPart b context)).run session = r' at steps ⊢
  cases steps with
  | error e e' same => exact .error _ _ same
  | ok results _ session =>
    simp only [List.forM_cons, List.forM_nil, bind_pure_unit, run_bind, attempt_run, Options.checkPart]
    rcases (o.checkState b path.state context).run session with ⟨f | ⟨⟨⟩⟩, session⟩
    · exact fail_alike ..
    · exact .ok ..

variable [LawfulKeyType κ]

theorem runPath_adds (path : Path σ) (session : Session σ κ ω) :
    Adds b (pathAttempts o b context path session) session.coverage
      ((o.runPath b path context).run session).2.coverage := by
  rw [(runPath_alike path session).coverage_eq]
  refine adds_inTurn (fun parts => parts.forM (o.checkPart b context)) checkPart_adds
    (fun _ => rfl) ?_ ?_ path.parts session
  · intro part rest session _ next ran
    rw [List.forM_eq_forM, List.forM_cons, run_bind, ran]
  · intro part rest session f next ran
    rw [List.forM_eq_forM, List.forM_cons, run_bind, ran]

theorem runPaths_adds (plan : Plan σ) (paths : List (Path σ)) (session : Session σ κ ω) :
    Adds b (attemptsInTurn (fun path => o.runPath b path context) (pathAttempts o b context) paths session)
      session.coverage ((o.runPaths b plan context paths).run session).2.coverage := by
  refine adds_inTurn (o.runPaths b plan context) runPath_adds (fun _ => rfl) ?_ ?_ paths session
  · intro path rest session result next ran
    rw [Options.runPaths, run_bind, run_tryCatch_ok ran]
    simp only [run_bind]
    rcases (o.runPaths b plan context rest).run next with ⟨_ | _, _⟩ <;> rfl
  · intro path rest session e next ran
    rw [Options.runPaths, run_bind, run_tryCatch, ran]
    cases e <;> rfl

theorem runPlan_adds (plan : Plan σ) (session : Session σ κ ω) :
    Adds b (planAttempts o b context plan session) session.coverage
      ((o.runPlan b plan context).run session).2.coverage :=
  runPaths_adds plan plan.paths
    { session with world := o.logger.log s!"Testing plan: {plan.description}" session.world }

end

section

variable [KeyType κ] [LawfulKeyType κ] {m : TestModel σ κ γ ω} {settings : List (Setting σ κ γ ω)}
  {context : γ}

omit [LawfulKeyType κ] in
/-- A call without options does nothing. -/
theorem adds_with {α : Type} {attempts : Options σ κ γ ω → List (Attempt σ κ γ ω)}
    {run : Options σ κ γ ω → Run σ κ ω α} {session : Session σ κ ω}
    (h : ∀ o, Adds m.behavior (attempts o) session.coverage ((run o).run session).2.coverage) :
    Adds m.behavior (attemptsWith m settings attempts) session.coverage
      ((Run.ofExcept (m.resolve settings) >>= run).run session).2.coverage := by
  rw [attemptsWith]
  cases m.resolve settings with
  | error f => exact .nil _
  | ok o => exact h o

theorem testPlansGiven_adds (plans : List (Plan σ)) (session : Session σ κ ω) :
    Adds m.behavior (plansAttempts m settings context plans session) session.coverage
      ((m.testPlansGiven settings context plans).run session).2.coverage := by
  refine adds_inTurn (m.testPlansGiven settings context) (fun plan session => ?_) (fun _ => rfl) ?_ ?_
    plans session
  · exact adds_with fun o => runPlan_adds plan session
  · intro plan rest session results next ran
    rw [TestModel.testPlansGiven, run_bind, ran]
    simp only [run_bind]
    rcases (m.testPlansGiven settings context rest).run next with ⟨_ | _, _⟩ <;> rfl
  · intro plan rest session e next ran
    rw [TestModel.testPlansGiven, run_bind, ran]

omit [KeyType κ] [LawfulKeyType κ] in
theorem run_discard {α : Type} (x : Run σ κ ω α) (session : Session σ κ ω) :
    ((discard x : Run σ κ ω Unit).run session).2 = (x.run session).2 := by
  have mapped : (discard x : Run σ κ ω Unit) = x >>= fun _ => pure () := by
    rw [← map_eq_pure_bind]
    rfl
  rw [mapped, run_bind]
  rcases x.run session with ⟨_ | _, _⟩ <;> rfl

/-- An operation adds what it attempts, unless it is a reset. -/
theorem operation_adds {op : Operation σ κ γ ω} (keeps : op ≠ .resetCoverage) (session : Session σ κ ω) :
    Adds m.behavior (op.attempts m session) session.coverage ((op.run m).run session).2.coverage := by
  cases op with
  | testState settings s context =>
    exact adds_with fun o => checkPart_adds (.state s) session
  | testTransition settings step context =>
    exact adds_with fun o => checkPart_adds (.transition step) session
  | testPath settings path context =>
    rw [Operation.run, run_discard]
    exact adds_with fun o => runPath_adds path session
  | testPlan settings plan context =>
    rw [Operation.run, run_discard]
    exact adds_with fun o => runPlan_adds plan session
  | testPlansGiven settings plans context =>
    rw [Operation.run, run_discard]
    exact testPlansGiven_adds plans session
  | testPlans settings maximal context =>
    rw [Operation.run, run_discard, TestModel.testPlans, Operation.attempts]
    cases m.plans settings maximal with
    | error f => exact .nil _
    | ok plans => exact testPlansGiven_adds plans session
  | ask q => exact .nil _
  | resetCoverage => cases keeps rfl
  | meanwhile change => exact .nil _

/-- What operations attempted since the last reset is what coverage counts. -/
theorem adds_sinceReset (ops : List (Operation σ κ γ ω)) {earlier : List (Attempt σ κ γ ω)}
    {session : Session σ κ ω} (counted : Adds m.behavior earlier {} session.coverage) :
    Adds m.behavior (attemptsSinceReset m earlier ops session) {} (m.after ops session).coverage := by
  induction ops generalizing earlier session with
  | nil => exact counted
  | cons op ops ih =>
    by_cases reset : op = .resetCoverage
    · subst reset
      change Adds m.behavior (attemptsSinceReset m [] ops { session with coverage := {} }) {}
        (m.after ops { session with coverage := {} }).coverage
      exact ih (.nil {})
    · have all := ih (counted.append (operation_adds reset session))
      rw [attemptsSinceReset]
      · exact all
      · exact fun eq => reset eq

open Classical in
/-- If the verified states are what is counted, the discoverable states among them are reported as covered. -/
theorem exists_verifiedReport {coverage : Coverage σ κ} {attempts : List (Attempt σ κ γ ω)}
    (counted : ∀ key, coverage.stateCount key = attempts.countP fun a => decide (a.Verifies m.behavior key))
    {states : List σ} (listed : m.allStates [] = .ok states)
    (described : ∀ s ∈ states, ∃ shown, m.describeState [] s = .ok shown) :
    ∃ report, m.getCoverage coverage (fun m => m.coversAllStates) = .ok report ∧
      List.Forall₂ (fun s r => ∃ key, m.stateKey [] s = .ok key ∧
        (r.2 = .covered ↔ ∃ a ∈ attempts, a.Verifies m.behavior key)) states report := by
  obtain ⟨o, plans, resolved, -, found, rfl, filing⟩ := TestModel.filed_of_allStates listed
  have answers : ∀ s ∈ found.map Prod.snd, TestModel.Answers m.behavior o none s := by
    intro s mem
    have description := described s mem
    rw [TestModel.describeState_eq resolved] at description
    obtain ⟨entry, filed, rfl⟩ := List.mem_map.1 mem
    exact ⟨⟨_, (filing.sound entry filed).2⟩, description, false, rfl⟩
  obtain ⟨report, reported, each⟩ := TestModel.exists_stateReport resolved listed answers coverage
  refine ⟨report, reported, each.imp fun s r ⟨key, told⟩ => ⟨key, ?_, ?_⟩⟩
  · rw [TestModel.stateKey_eq resolved]
    exact told.asks.key
  · have asked : r.1.skip = false := (Except.ok.inj told.asks.skip).symm
    have some_iff : 0 < coverage.stateCount key ↔ ∃ a ∈ attempts, a.Verifies m.behavior key := by
      rw [counted, List.countP_pos_iff]
      simp only [decide_eq_true_eq]
    rw [told.status, asked, ← some_iff]
    by_cases visited : 0 < coverage.stateCount key <;> simp [visited]

open Classical in
/-- **Coverage counts exactly what was completed.** After any history of operations, failed ones included, a
state key is counted as often as states of this key were verified since the last reset, and a step key as
often as such steps were performed. No question changes what is counted. So the report on the discoverable
states says covered of those whose keys were verified, and coverage that is asked for fails to be there
exactly if a criterion that is not skipped is unmet. -/
theorem coverage_counts_completed_attempts (m : TestModel σ κ γ ω) (ops : List (Operation σ κ γ ω)) (w : ω) :
    let coverage := (m.after ops ⟨{}, w⟩).coverage
    let attempts := attemptsSinceReset m [] ops ⟨{}, w⟩
    (∀ key, coverage.stateCount key = attempts.countP fun a => decide (a.Verifies m.behavior key)) ∧
    (∀ key, coverage.transitionCount key = attempts.countP fun a => decide (a.Performs key)) ∧
    (∀ (q : Query σ κ γ ω) session, (m.after [.ask q] session).coverage = session.coverage) ∧
    (∀ {states}, m.allStates [] = .ok states →
      (∀ s ∈ states, ∃ shown, m.describeState [] s = .ok shown) →
      ∃ report, m.getCoverage coverage (fun m => m.coversAllStates) = .ok report ∧
        List.Forall₂ (fun s r => ∃ key, m.stateKey [] s = .ok key ∧
          (r.2 = .covered ↔ ∃ a ∈ attempts, a.Verifies m.behavior key)) states report) ∧
    (∀ {criteria : TestModel.Criteria σ κ γ ω} {made}, criteria m = .ok made →
      (∀ c ∈ made, c.skip = false → ∃ met, c.predicate coverage = .ok met) →
      ((∃ descriptions, m.testCoverage coverage criteria = .error (.uncovered descriptions)) ↔
        ∃ c ∈ made, c.skip = false ∧ c.predicate coverage = .ok false)) := by
  intro coverage attempts
  have counted : Adds m.behavior attempts {} coverage := adds_sinceReset ops (.nil {})
  have states : ∀ key, coverage.stateCount key = attempts.countP fun a => decide (a.Verifies m.behavior key) := by
    intro key
    rw [counted.states]
    exact Nat.zero_add _
  refine ⟨states, ?_, fun _ _ => rfl, ?_, ?_⟩
  · intro key
    rw [counted.transitions]
    exact Nat.zero_add _
  · intro _ listed described
    exact exists_verifiedReport states listed described
  · intro criteria made h answers
    obtain ⟨met, covered⟩ | ⟨⟨c, mem, missed⟩, uncovered⟩ :=
      TestModel.testCoverage_cases h answers
    · refine iff_of_false ?_ ?_
      · rintro ⟨_, failed⟩
        cases covered.symm.trans failed
      · rintro ⟨c, mem, asked, unmet⟩
        exact met c mem ⟨asked, unmet⟩
    · exact iff_of_true ⟨_, uncovered⟩ ⟨c, mem, missed.asked, missed.unmet⟩

end

/-! ## A ride that jams -/

/-- The carousel that jams, with events known by which of the two they are. -/
def jammingRide : TestModel (Search.Place × Nat) String String CallLog where
  behavior := Search.carousel
  options := .ok { rideOptions with eventKey := fun e => .ok (if Search.skips e then "skip" else "step") }

/-- The round trip is tried twice, with a reset in between. -/
def roundTrips : List (Operation (Search.Place × Nat) String String CallLog) :=
  [.testPath [] roundTrip "page", .resetCoverage, .testPath [] roundTrip "page", .ask (.simplePlans [] false)]

open Classical in
/-- Since the reset two places were verified and a step was performed, each of them once. The skip jammed, and
the third place was never reached. -/
theorem roundTrips_counted :
    let attempts := attemptsSinceReset jammingRide [] roundTrips ⟨{}, []⟩
    (attempts.countP fun a => decide (a.Verifies Search.carousel "second")) = 1 ∧
      (attempts.countP fun a => decide (a.Performs "first | step")) = 1 ∧
      (attempts.countP fun a => decide (a.Performs "second | skip")) = 0 ∧
      ∃ report, jammingRide.getCoverage (jammingRide.after roundTrips ⟨{}, []⟩).coverage
          (fun m => m.coversAllStates) = .ok report ∧
        List.Forall₂ (fun s r => r.2 = .covered ↔ s.1 ≠ .third)
          [(Search.Place.first, 0), (.second, 1), (.third, 1)] report := by
  intro attempts
  obtain ⟨states, transitions, -, report, -⟩ := coverage_counts_completed_attempts jammingRide roundTrips []
  have listed : jammingRide.allStates [] = .ok [(.first, 0), (.second, 1), (.third, 1)] := rfl
  obtain ⟨report, reported, each⟩ := report listed fun s _ => ⟨_, rfl⟩
  refine ⟨(states "second").symm.trans (by decide), (transitions "first | step").symm.trans (by decide),
    (transitions "second | skip").symm.trans (by decide), report, reported, ?_⟩
  refine each.imp fun s r ⟨key, keyed, covered_iff⟩ => ?_
  have counted_iff : r.2 = .covered ↔
      0 < (jammingRide.after roundTrips ⟨{}, []⟩).coverage.stateCount key := by
    rw [covered_iff, states key, List.countP_pos_iff]
    simp only [decide_eq_true_eq]
  rw [counted_iff]
  obtain ⟨_ | _ | _, count⟩ := s <;> cases keyed
  · exact iff_of_true (show 0 < Coverage.stateCount _ "first" by decide) nofun
  · exact iff_of_true (show 0 < Coverage.stateCount _ "second" by decide) nofun
  · exact iff_of_false (show ¬ 0 < Coverage.stateCount _ "third" by decide) (· rfl)

end Model

end StateWalk
