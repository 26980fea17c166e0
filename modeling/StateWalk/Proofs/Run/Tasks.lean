import StateWalk.Model.Run
import StateWalk.Proofs.Outcome

/-!
# The tasks of a run

A run does one task after the other: it calls a function of the caller, or counts what was verified.
Which tasks these are is decided by the options alone, as long as the functions that select, describe and
compute keys answer. `Directions` are their answers, and `perform` does a list of tasks until a call fails.

`checkState_eq` and `checkTransition_eq` say that verifying a state and performing an event are to do their
tasks, and `perform_cases` what that comes to: every call succeeds, or the calls before some call do and
that one fails.
-/

namespace StateWalk.Model

open Outcome

variable {σ κ γ ω ι : Type}

/-! ## Running -/

theorem run_bind {ε S α β : Type} (x : ExceptT ε (StateM S) α) (f : α → ExceptT ε (StateM S) β) (s : S) :
    (x >>= f).run s =
      match x.run s with
      | (.ok a, t) => (f a).run t
      | (.error e, t) => (.error e, t) := by
  change (ExceptT.bindCont f (x.run s).1).run (x.run s).2 = _
  rcases x.run s with ⟨_ | _, t⟩ <;> rfl

theorem Check.ofExcept_ok {α : Type} (a : α) : (Check.ofExcept (.ok a) : Check σ κ ω α) = pure a := rfl

/-- Calls made one after the other, all of which succeed. -/
inductive Succeed : List (Action ω) → ω → ω → Prop where
  | nil (w : ω) : Succeed [] w w
  | cons {a : Action ω} {rest : List (Action ω)} {w w' w'' : ω} :
      a w = (.ok (), w') → Succeed rest w' w'' → Succeed (a :: rest) w w''

/-- Calls are made until one of them fails. -/
theorem forM_act_split (calls : List (Action ω)) (session : Session σ κ ω) :
    (∃ w, Succeed calls session.world w ∧
        (calls.forM Check.act : Check σ κ ω Unit).run session = (.ok (), { session with world := w })) ∨
      ∃ before call after mid f w, calls = before ++ call :: after ∧ Succeed before session.world mid ∧
        call mid = (.error f, w) ∧
        (calls.forM Check.act : Check σ κ ω Unit).run session = (.error f, { session with world := w }) := by
  induction calls generalizing session with
  | nil => exact .inl ⟨session.world, .nil _, rfl⟩
  | cons call calls ih =>
    have act : (Check.act call : Check σ κ ω Unit).run session =
      ((call session.world).1, { session with world := (call session.world).2 }) := rfl
    rw [List.forM_eq_forM, List.forM_cons, run_bind, act]
    rcases called : call session.world with ⟨f | ⟨⟨⟩⟩, w⟩
    · exact .inr ⟨[], call, calls, session.world, f, w, rfl, .nil _, called, rfl⟩
    · obtain ⟨w', succeed, run⟩ | ⟨before, other, after, mid, f, w', rfl, succeed, failed, run⟩ :=
        ih { session with world := w }
      · exact .inl ⟨w', .cons called succeed, run⟩
      · exact .inr ⟨call :: before, other, after, mid, f, w', rfl, .cons called succeed, failed, run⟩

/-- What is counted: a state or a step, by its key. -/
inductive Count (σ κ : Type) where
  | state (key : κ) (s : σ)
  | transition (key : String) (step : Step σ)

/-- The coverage once this is counted. -/
def Count.added [KeyType κ] (c : Coverage σ κ) : Count σ κ → Coverage σ κ
  | state key s => c.addState key s
  | transition key step => c.addTransition key step

/-- One thing that a run does: call a function, or count. -/
inductive Task (σ κ ω : Type) where
  | call (a : Action ω)
  | count (v : Count σ κ)

namespace Task

/-- The function that the task calls. -/
def call? : Task σ κ ω → Option (Action ω)
  | call a => some a
  | count _ => none

/-- What the task counts. -/
def count? : Task σ κ ω → Option (Count σ κ)
  | call _ => none
  | count v => some v

def run [KeyType κ] : Task σ κ ω → Check σ κ ω Unit
  | call a => Check.act a
  | count v => Check.cover fun c => v.added c

end Task

/-- The functions that labelled tasks call, in order. -/
def calls (tasks : List (ι × Task σ κ ω)) : List (ι × Action ω) :=
  tasks.filterMap fun task => task.2.call?.map (Prod.mk task.1)

@[simp]
theorem calls_append (tasks more : List (ι × Task σ κ ω)) :
    calls (tasks ++ more) = calls tasks ++ calls more := List.filterMap_append

/-- What tasks count, in order. -/
def counts (tasks : List (ι × Task σ κ ω)) : List (Count σ κ) :=
  tasks.filterMap fun task => task.2.count?

@[simp]
theorem counts_append (tasks more : List (ι × Task σ κ ω)) :
    counts (tasks ++ more) = counts tasks ++ counts more := List.filterMap_append

section

variable [KeyType κ]

/-- Do the tasks until one of them fails: its label and fault, if there is one, and what comes of the
session. -/
def perform : List (ι × Task σ κ ω) → Session σ κ ω → Option (ι × Fault) × Session σ κ ω
  | [], session => (none, session)
  | (i, task) :: tasks, session =>
    match task.run.run session with
    | (.ok _, session) => perform tasks session
    | (.error f, session) => (some (i, f), session)

theorem perform_append (tasks more : List (ι × Task σ κ ω)) (session : Session σ κ ω) :
    perform (tasks ++ more) session =
      match perform tasks session with
      | (none, session) => perform more session
      | (some stop, session) => (some stop, session) := by
  induction tasks generalizing session with
  | nil => rfl
  | cons task tasks ih =>
    simp only [List.cons_append, perform]
    split
    · exact ih _
    · rfl

theorem perform_call_ok {a : Action ω} {session : Session σ κ ω} {w : ω}
    (called : a session.world = (.ok (), w)) (i : ι) (tasks : List (ι × Task σ κ ω)) :
    perform ((i, .call a) :: tasks) session = perform tasks { session with world := w } := by
  have run : (Task.call a : Task σ κ ω).run.run session = (.ok (), { session with world := w }) := by
    change ((a session.world).1, { session with world := (a session.world).2 }) = _
    rw [called]
  rw [perform, run]

theorem perform_call_error {a : Action ω} {session : Session σ κ ω} {f : Fault} {w : ω}
    (called : a session.world = (.error f, w)) (i : ι) (tasks : List (ι × Task σ κ ω)) :
    perform ((i, .call a) :: tasks) session = (some (i, f), { session with world := w }) := by
  have run : (Task.call a : Task σ κ ω).run.run session = (.error f, { session with world := w }) := by
    change ((a session.world).1, { session with world := (a session.world).2 }) = _
    rw [called]
  rw [perform, run]

/-- A function that may be absent is called or is no task at all. -/
theorem forM_act {α : Type} (f : Option α) (action : α → Action ω) :
    (f.forM fun a => Check.act (action a) : Check σ κ ω Unit) =
      (f.toList.map fun a => Task.call (action a)).forM Task.run := by
  cases f <;> simp [Task.run]

/-- Tasks done as one check and tasks with one label: all are done, or one of them fails. -/
theorem forM_cases (i : ι) (tasks : List (Task σ κ ω)) (session : Session σ κ ω) :
    (∃ session', (tasks.forM Task.run).run session = (.ok (), session') ∧
        perform (tasks.map (Prod.mk i)) session = (none, session')) ∨
      ∃ f session', (tasks.forM Task.run).run session = (.error f, session') ∧
        perform (tasks.map (Prod.mk i)) session = (some (i, f), session') := by
  induction tasks generalizing session with
  | nil => exact .inl ⟨session, rfl, rfl⟩
  | cons task tasks ih =>
    rw [List.forM_eq_forM, List.forM_cons, run_bind, List.map_cons, perform]
    rcases task.run.run session with ⟨f | _, session⟩
    · exact .inr ⟨f, session, rfl, rfl⟩
    · exact ih session

/-! ## What tasks come to -/

/-- The coverage once all tasks are done. -/
def countAll (tasks : List (ι × Task σ κ ω)) (c : Coverage σ κ) : Coverage σ κ :=
  (counts tasks).foldl Count.added c

@[simp]
theorem countAll_append (tasks more : List (ι × Task σ κ ω)) (c : Coverage σ κ) :
    countAll (tasks ++ more) c = countAll more (countAll tasks c) := by
  rw [countAll, counts_append, List.foldl_append]
  rfl

/-- All tasks are done: their calls succeed, and everything is counted. -/
structure Performed (tasks : List (ι × Task σ κ ω)) (session session' : Session σ κ ω) : Prop where
  succeed : Succeed ((calls tasks).map Prod.snd) session.world session'.world
  counted : session'.coverage = countAll tasks session.coverage

theorem Performed.cons_call {i : ι} {a : Action ω} {tasks : List (ι × Task σ κ ω)}
    {session session' : Session σ κ ω} {w : ω} (called : a session.world = (.ok (), w))
    (h : Performed tasks { session with world := w } session') :
    Performed ((i, .call a) :: tasks) session session' :=
  ⟨.cons called h.succeed, h.counted⟩

/-- Either all tasks are done, or those before some call are and that call fails. -/
theorem perform_cases (tasks : List (ι × Task σ κ ω)) (session : Session σ κ ω) :
    (∃ session', perform tasks session = (none, session') ∧ Performed tasks session session') ∨
      ∃ before i a after mid f w, tasks = before ++ (i, .call a) :: after ∧
        Performed before session mid ∧ a mid.world = (.error f, w) ∧
        perform tasks session = (some (i, f), { mid with world := w }) := by
  induction tasks generalizing session with
  | nil => exact .inl ⟨session, rfl, .nil _, rfl⟩
  | cons task tasks ih =>
    obtain ⟨i, task⟩ := task
    cases task with
    | count v =>
      -- counting cannot fail, so what the tasks after it come to is all there is to say
      obtain ⟨session', run, done⟩ | ⟨before, j, a, after, mid, f, w, rfl, done, failed, run⟩ :=
        ih { session with coverage := v.added session.coverage }
      · exact .inl ⟨session', run, done.succeed, done.counted⟩
      · exact .inr ⟨(i, .count v) :: before, j, a, after, mid, f, w, rfl,
          ⟨done.succeed, done.counted⟩, failed, run⟩
    | call a =>
      rcases called : a session.world with ⟨f | ⟨⟨⟩⟩, w⟩
      · exact .inr ⟨[], i, a, tasks, session, f, w, rfl, ⟨.nil _, rfl⟩, called,
          perform_call_error called i tasks⟩
      · rw [perform_call_ok called]
        obtain ⟨session', run, done⟩ | ⟨before, j, a', after, mid, f, w', rfl, done, failed, run⟩ :=
            ih { session with world := w }
        · exact .inl ⟨session', run, done.cons_call called⟩
        · exact .inr ⟨(i, .call a) :: before, j, a', after, mid, f, w', rfl, done.cons_call called,
            failed, run⟩

end

/-! ## Directions -/

/-- What decides the tasks of a run: which test keys apply to a state, the configurations of event
types, and keys. -/
structure Directions (σ κ γ ω : Type) where
  applies : σ → String → Bool
  config : Value → Option (EventConfig σ γ ω)
  stateKey : σ → κ
  eventKey : Event → κ

namespace Directions

variable {D : Directions σ κ γ ω} {o : Options σ κ γ ω} {b : Behavior σ κ}

/-- The tests registered under keys that apply to the state, in order, else that of the wildcard. -/
def tests (D : Directions σ κ γ ω) (o : Options σ κ γ ω) (s : σ) : List (StateTest σ γ ω) :=
  match (o.stateTests.filter fun test => test.1 ≠ wildcard && D.applies s test.1).map Prod.snd with
  | [] => (Keyed.find? o.stateTests wildcard).toList
  | tests => tests

theorem tests_subset (D : Directions σ κ γ ω) (o : Options σ κ γ ω) (s : σ) :
    D.tests o s ⊆ o.stateTests.map Prod.snd := by
  rw [tests]
  split
  · intro test selected
    rw [Option.mem_toList, Keyed.find?, Option.map_eq_some_iff] at selected
    obtain ⟨entry, found, rfl⟩ := selected
    exact List.mem_map.2 ⟨entry, List.mem_of_find?_eq_some found, rfl⟩
  · exact List.map_subset _ (List.filter_subset_self _)

/-- The executor that an event type is configured with, else that of the wildcard. -/
def executor? (D : Directions σ κ γ ω) (type : Value) : Option (Executor σ γ ω) :=
  ((D.config type).bind EventConfig.exec).or ((D.config (.text wildcard)).bind EventConfig.exec)

/-- The event's type and the wildcard have the configurations that the directions say, and the event
its key. -/
structure ForEvent (D : Directions σ κ γ ω) (o : Options σ κ γ ω) (e : Event) : Prop where
  config : o.eventConfig? e.type = .ok (D.config e.type)
  fallback : o.eventConfig? (.text wildcard) = .ok (D.config (.text wildcard))
  key : o.eventKey e = .ok (D.eventKey e)

variable [KeyType κ]

/-- The key of a step in coverage records. -/
def stepKey (D : Directions σ κ γ ω) (step : Step σ) : String :=
  s!"{KeyType.label (D.stateKey step.state)} | {KeyType.label (D.eventKey step.event)}"

/-- The tasks of verifying a state: call its tests, count it, call `afterState`. -/
def stateTasks (D : Directions σ κ γ ω) (o : Options σ κ γ ω) (context : γ) (s : σ) :
    List (Task σ κ ω) :=
  (D.tests o s).map (fun test => .call (test s context)) ++
    .count (.state (D.stateKey s) s) :: o.afterState.toList.map fun after => .call (after s context)

/-- The tasks of performing an event: call its executor, call `afterTransition`, count it. -/
def eventTasks (D : Directions σ κ γ ω) (o : Options σ κ γ ω) (context : γ) (step : Step σ) :
    List (Task σ κ ω) :=
  ((D.executor? step.event.type).toList ++ o.afterTransition.toList).map
    (fun exec => .call (exec step context)) ++ [.count (.transition (D.stepKey step) step)]

/-- The functions that are asked about the state answer as the directions say, and it can be
described. -/
structure ForState (D : Directions σ κ γ ω) (b : Behavior σ κ) (o : Options σ κ γ ω) (s : σ) : Prop where
  applies : ∀ test ∈ o.stateTests, test.1 ≠ wildcard →
    (o.matcher.getD (o.defaultMatcher b)) s test.1 = .ok (D.applies s test.1)
  key : o.nodeKey s none = .ok (D.stateKey s)
  described : ∃ k, Search.describer b o.toOptions s = .ok k

/-- What the functions answer, with any directions where they fail. -/
def answers [Inhabited κ] (b : Behavior σ κ) (o : Options σ κ γ ω) : Directions σ κ γ ω where
  applies s key := ((o.matcher.getD (o.defaultMatcher b)) s key).toOption.getD false
  config type := (o.eventConfig? type).toOption.getD none
  stateKey s := (o.nodeKey s none).toOption.getD default
  eventKey e := (o.eventKey e).toOption.getD default

/-! ## States and events -/

theorem forState_answers [Inhabited κ] {s : σ}
    (applies : ∀ test ∈ o.stateTests, test.1 ≠ wildcard →
      ∃ answer, (o.matcher.getD (o.defaultMatcher b)) s test.1 = .ok answer)
    (key : ∃ k, o.nodeKey s none = .ok k) (described : ∃ k, Search.describer b o.toOptions s = .ok k) :
    (answers b o).ForState b o s :=
  ⟨fun test mem plain => eq_ok_getD (applies test mem plain) false, eq_ok_getD key default, described⟩

theorem forEvent_answers [Inhabited κ] {e : Event} (config : ∃ c, o.eventConfig? e.type = .ok c)
    (fallback : ∃ c, o.eventConfig? (.text wildcard) = .ok c) (key : ∃ k, o.eventKey e = .ok k) :
    (answers b o).ForEvent o e :=
  ⟨eq_ok_getD config none, eq_ok_getD fallback none, eq_ok_getD key default⟩

theorem matching_eq_ok {applies : String → Except Fault Bool} {answer : String → Bool}
    {tests : List (String × StateTest σ γ ω)}
    (h : ∀ test ∈ tests, test.1 ≠ wildcard → applies test.1 = .ok (answer test.1)) :
    Options.matching applies tests =
      .ok ((tests.filter fun test => test.1 ≠ wildcard && answer test.1).map Prod.snd) := by
  induction tests with
  | nil => rfl
  | cons test tests ih =>
    obtain ⟨key, test⟩ := test
    rw [List.forall_mem_cons] at h
    rw [Options.matching, ih h.2]
    by_cases isWildcard : key = wildcard
    · rw [if_pos isWildcard, List.filter_cons_of_neg (by simp [isWildcard])]
      rfl
    · rw [if_neg isWildcard, h.1 isWildcard]
      simp only [isWildcard, ne_eq, not_false_eq_true, decide_true, Bool.true_and, List.filter_cons]
      cases answer key <;> rfl

theorem ForState.selectedTests {s : σ} (h : D.ForState b o s) :
    o.selectedTests b s = .ok (D.tests o s) := by
  rw [Options.selectedTests, matching_eq_ok h.applies, Directions.tests]
  change (match (o.stateTests.filter _).map Prod.snd with | [] => _ | tests => _) = _
  generalize (o.stateTests.filter fun test => test.1 ≠ wildcard && D.applies s test.1).map Prod.snd = tests
  cases tests <;> rfl

omit [KeyType κ] in
theorem ForEvent.executor? {e : Event} (h : D.ForEvent o e) :
    o.executor? e.type = .ok (D.executor? e.type) := by
  rw [Options.executor?, h.config, h.fallback, Directions.executor?]
  simp only [bind, Except.bind]
  cases (D.config e.type).bind EventConfig.exec <;> rfl

theorem ForState.stateKey {s : σ} (h : D.ForState b o s) : o.stateKey s none = .ok (D.stateKey s) := by
  obtain ⟨k, key, checked⟩ := bind_eq_ok_iff.1 h.key
  obtain ⟨-, -, eq⟩ := bind_eq_ok_iff.1 checked
  cases eq
  exact key

theorem stepKey_eq_ok {step : Step σ} (state : D.ForState b o step.state)
    (event : D.ForEvent o step.event) : TestModel.stepKey o.toOptions step = .ok (D.stepKey step) := by
  rw [TestModel.stepKey, state.stateKey, event.key]
  rfl

/-- Verifying a state is to do its tasks. -/
theorem ForState.checkState_eq {s : σ} (h : D.ForState b o s) (context : γ) :
    o.checkState b s context = (D.stateTasks o context s).forM Task.run := by
  simp only [Options.checkState, h.selectedTests, h.key, Check.ofExcept_ok, pure_bind, forM_act, stateTasks,
    List.forM_eq_forM, List.forM_append, List.forM_cons, List.forM_map, Task.run, Count.added]

/-- Performing an event is to do its tasks. -/
theorem ForEvent.checkTransition_eq {step : Step σ} (event : D.ForEvent o step.event)
    (state : D.ForState b o step.state) (context : γ) :
    o.checkTransition step context = (D.eventTasks o context step).forM Task.run := by
  simp only [Options.checkTransition, event.executor?, stepKey_eq_ok state event, Check.ofExcept_ok,
    pure_bind, forM_act, eventTasks, List.forM_eq_forM, List.map_append, List.forM_append,
    List.forM_cons, List.forM_nil, List.forM_map, Task.run, Count.added, bind_assoc,
    bind_pure_unit]

end Directions

end StateWalk.Model
