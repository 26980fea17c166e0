import StateWalk.Model.History
import StateWalk.Proofs.Run.Replay

/-!
# Settings of a call

A setting changes the option of its name and no other (`Options.setting_apply`), so of several settings the last
one of each name counts.

A call with settings does the same as the call without any on a model that has them as its options: it has
the same result or failure, the same effects on the world, and counts the same (`SameCalls`). For whatever a
call computes, it computes from the behavior and from the options that result (`SameOptions.sameCalls`).

Some calls make other calls, and hand their settings on. `allTransitions_eq` and `testPlan_eq` say so; each
of the calls that they are made of applies the settings again, to the options of the model.

The options of the model itself stay what they are: over any history, each operation finds them and nothing
of the settings of those before it (`after_eq_foldl`).
-/

namespace StateWalk

open Model

variable {σ κ γ ω : Type}

namespace Model

/-! ## Options by name -/

/-- What an option is called. -/
inductive OptionName where
  | stateKey
  | eventKey
  | events
  | filter
  | limit
  | keepTies
  | describe
  | eventEntries
  | stateTests
  | afterTransition
  | afterState
  | matcher
  | logger
  | generator
  deriving DecidableEq

/-- The option that the setting replaces, if it is one. -/
def Setting.name? : Setting σ κ γ ω → Option OptionName
  | stateKey _ => some .stateKey
  | eventKey _ => some .eventKey
  | events _ => some .events
  | filter _ => some .filter
  | limit _ => some .limit
  | keepTies _ => some .keepTies
  | describe _ => some .describe
  | eventEntries _ => some .eventEntries
  | stateTests _ => some .stateTests
  | afterTransition _ => some .afterTransition
  | afterState _ => some .afterState
  | matcher _ => some .matcher
  | logger _ => some .logger
  | generator _ => some .generator
  | unknown _ => none

namespace Options

/-- The option of this name, as the setting that makes it what it is. -/
def setting (o : Options σ κ γ ω) : OptionName → Setting σ κ γ ω
  | .stateKey => .stateKey o.stateKey
  | .eventKey => .eventKey o.eventKey
  | .events => .events o.events
  | .filter => .filter o.filter
  | .limit => .limit o.limit
  | .keepTies => .keepTies o.keepTies
  | .describe => .describe o.describe
  | .eventEntries => .eventEntries o.eventEntries
  | .stateTests => .stateTests o.stateTests
  | .afterTransition => .afterTransition o.afterTransition
  | .afterState => .afterState o.afterState
  | .matcher => .matcher o.matcher
  | .logger => .logger o.logger
  | .generator => .generator o.generator

/-- A setting changes the option of its name and no other. -/
theorem setting_apply (o : Options σ κ γ ω) (s : Setting σ κ γ ω) (name : OptionName) :
    (o.apply s).setting name = if s.name? = some name then s else o.setting name := by
  cases s <;> cases name <;> rfl

/-- Of the settings of one name the last one counts. -/
theorem setting_foldl_apply (o : Options σ κ γ ω) (settings : List (Setting σ κ γ ω)) (name : OptionName) :
    (settings.foldl apply o).setting name =
      (settings.reverse.find? fun s => s.name? = some name).getD (o.setting name) := by
  induction settings generalizing o with
  | nil => rfl
  | cons s settings ih =>
    rw [List.foldl_cons, ih, setting_apply, List.reverse_cons, List.find?_append]
    cases settings.reverse.find? fun s => s.name? = some name with
    | some last => rfl
    | none => by_cases named : s.name? = some name <;> simp [named]

end Options

end Model

namespace TestModel

/-! ## Options that result -/

/-- The model that has the settings of a call as its options. -/
def withSettings (m : TestModel σ κ γ ω) (settings : List (Setting σ κ γ ω)) : TestModel σ κ γ ω :=
  ⟨m.behavior, m.resolve settings⟩

theorem checkNames_append {settings more : List (Setting σ κ γ ω)}
    (known : more.filterMap Setting.unknownName? = []) :
    Setting.checkNames (settings ++ more) = Setting.checkNames settings := by
  rw [Setting.checkNames, List.filterMap_append, known, List.append_nil]
  rfl

/-- Settings one after the other are all of them at once. -/
theorem resolve_withSettings (m : TestModel σ κ γ ω) (settings : List (Setting σ κ γ ω))
    {more : List (Setting σ κ γ ω)} (known : more.filterMap Setting.unknownName? = []) :
    (m.withSettings settings).resolve more = m.resolve (settings ++ more) := by
  have names : Setting.checkNames more = .ok () := by
    rw [Setting.checkNames, known]
  simp only [withSettings, resolve, Options.resolve, names, checkNames_append known, List.foldl_append]
  cases Setting.checkNames settings with
  | error e => rfl
  | ok _ =>
    cases m.options with
    | error e => rfl
    | ok base => rfl

/-- Known settings can be applied to options. -/
theorem options_withSettings (m : TestModel σ κ γ ω) {settings : List (Setting σ κ γ ω)}
    {base : Options σ κ γ ω} (given : m.options = .ok base)
    (known : ∀ s ∈ settings, s.unknownName? = none) :
    (m.withSettings settings).options = .ok (settings.foldl Options.apply base) := by
  have names : Setting.checkNames settings = .ok () := by
    rw [Setting.checkNames, List.filterMap_eq_nil_iff.2 known]
  simp only [withSettings, resolve, given, Options.resolve, names]
  rfl

theorem withSettings_nil (m : TestModel σ κ γ ω) : m.withSettings [] = m := by
  obtain ⟨behavior, options⟩ := m
  cases options <;> rfl

/-- Calls on one model and on the other, with these settings, find the same behavior and the same options,
also if they add settings of their own. -/
structure SameOptions (m : TestModel σ κ γ ω) (settings : List (Setting σ κ γ ω)) (m' : TestModel σ κ γ ω)
    (settings' : List (Setting σ κ γ ω)) : Prop where
  behavior : m.behavior = m'.behavior
  resolve : ∀ more : List (Setting σ κ γ ω), more.filterMap Setting.unknownName? = [] →
    m.resolve (settings ++ more) = m'.resolve (settings' ++ more)

theorem sameOptions_withSettings (m : TestModel σ κ γ ω) (settings : List (Setting σ κ γ ω)) :
    SameOptions m settings (m.withSettings settings) [] where
  behavior := rfl
  resolve _ known := (m.resolve_withSettings settings known).symm

/-! ## Calls made of calls -/

section

variable [KeyType κ]

theorem addSteps_eq_foldlM (b : Behavior σ κ) (o : Search.Options σ κ) (s : σ)
    (found : List (String × Step σ)) (es : List Event) :
    addSteps b o s found es = es.foldlM (fun found e => do
      let next ← b.transition s e
      if ← o.admits next then fileFirst found (← stepKey o ⟨s, e⟩) ⟨s, e⟩ else return found) found := by
  induction es generalizing found with
  | nil => rfl
  | cons e es ih =>
    rw [addSteps, List.foldlM_cons, bind_assoc]
    refine bind_congr fun next => ?_
    rw [bind_assoc]
    refine bind_congr fun passes => ?_
    cases passes with
    | false => exact ih found
    | true =>
      simp only [if_true, bind_assoc]
      exact bind_congr fun key => bind_congr fun found => ih found

/-- The transitions are listed by calls for the states and for the key of each transition. -/
theorem allTransitions_eq (m : TestModel σ κ γ ω) (settings : List (Setting σ κ γ ω)) :
    m.allTransitions settings = (do
      let o ← m.resolve settings
      let states ← m.allStates settings
      let found ← states.foldlM (fun found s => do
        let es ← o.expandedEvents m.behavior s
        es.foldlM (fun found e => do
          let next ← m.behavior.transition s e
          if ← o.admits next then fileFirst found (← m.transitionKey settings ⟨s, e⟩) ⟨s, e⟩
          else return found) found) []
      return found.map Prod.snd) := by
  rw [allTransitions]
  cases resolved : m.resolve settings with
  | error f => rfl
  | ok o =>
    have key : ∀ step, m.transitionKey settings step = stepKey o.toOptions step := by
      intro step
      rw [transitionKey, resolved]
      rfl
    simp only [key, addSteps_eq_foldlM]
    rfl

/-- A plan is run by calls that run its paths. -/
theorem testPlan_eq (m : TestModel σ κ γ ω) (settings : List (Setting σ κ γ ω)) (plan : Plan σ)
    (context : γ) :
    m.testPlan settings plan context = (do
      let o ← Run.ofExcept (m.resolve settings)
      Run.say (o.logger.log s!"Testing plan: {plan.description}")
      plan.paths.mapM fun path => tryCatch (m.testPath settings path context) fun
        | .path failure => throw (.plan plan failure)
        | e => throw e) := by
  rw [testPlan]
  cases resolved : m.resolve settings with
  | error f => rfl
  | ok o =>
    have run : ∀ path, m.testPath settings path context = o.runPath m.behavior path context := by
      intro path
      rw [testPath, resolved]
      rfl
    have runs : ∀ paths, o.runPaths m.behavior plan context paths = paths.mapM fun path =>
        tryCatch (m.testPath settings path context) fun
          | .path failure => throw (.plan plan failure)
          | e => throw e := by
      intro paths
      induction paths with
      | nil => rfl
      | cons path paths ih =>
        rw [List.mapM_cons, ← ih, run]
        rfl
    have found : (Run.ofExcept (.ok o) : Run σ κ ω (Options σ κ γ ω)) = pure o := rfl
    rw [found, pure_bind, pure_bind, Options.runPlan, runs]

/-! ## The same calls -/

/-- Every call does the same on the first model, with the first settings, as on the second one, with the
second settings. -/
structure SameCalls (m : TestModel σ κ γ ω) (settings : List (Setting σ κ γ ω)) (m' : TestModel σ κ γ ω)
    (settings' : List (Setting σ κ γ ω)) : Prop where
  plans : ∀ maximal, m.plans settings maximal = m'.plans settings' maximal
  shortestPlans : ∀ maximal, m.shortestPlans settings maximal = m'.shortestPlans settings' maximal
  shortestPlansTo : ∀ goal maximal,
    m.shortestPlansTo settings goal maximal = m'.shortestPlansTo settings' goal maximal
  simplePlans : ∀ maximal, m.simplePlans settings maximal = m'.simplePlans settings' maximal
  simplePlansTo : ∀ goal maximal,
    m.simplePlansTo settings goal maximal = m'.simplePlansTo settings' goal maximal
  allStates : m.allStates settings = m'.allStates settings'
  allTransitions : m.allTransitions settings = m'.allTransitions settings'
  describeState : ∀ s, m.describeState settings s = m'.describeState settings' s
  stateKey : ∀ s, m.stateKey settings s = m'.stateKey settings' s
  transitionKey : ∀ step, m.transitionKey settings step = m'.transitionKey settings' step
  testState : ∀ s context, m.testState settings s context = m'.testState settings' s context
  testTransition : ∀ step context,
    m.testTransition settings step context = m'.testTransition settings' step context
  testPath : ∀ path context, m.testPath settings path context = m'.testPath settings' path context
  testPlan : ∀ plan context, m.testPlan settings plan context = m'.testPlan settings' plan context
  testPlansGiven : ∀ context plans,
    m.testPlansGiven settings context plans = m'.testPlansGiven settings' context plans
  testPlans : ∀ context maximal, m.testPlans settings context maximal = m'.testPlans settings' context maximal

namespace SameOptions

variable {m m' : TestModel σ κ γ ω} {settings settings' : List (Setting σ κ γ ω)}

omit [KeyType κ] in
theorem resolve_eq (same : SameOptions m settings m' settings') :
    m.resolve settings = m'.resolve settings' := by
  have eq := same.resolve [] rfl
  rwa [List.append_nil, List.append_nil] at eq

omit [KeyType κ] in
/-- A setting that a call adds comes after those that it is given, on either model. -/
theorem add (same : SameOptions m settings m' settings') {more : List (Setting σ κ γ ω)}
    (known : more.filterMap Setting.unknownName? = []) :
    SameOptions m (settings ++ more) m' (settings' ++ more) where
  behavior := same.behavior
  resolve others known' := by
    rw [List.append_assoc, List.append_assoc]
    exact same.resolve _ (by rw [List.filterMap_append, known, known', List.append_nil])

theorem plans_eq (same : SameOptions m settings m' settings') (maximal : Bool) :
    m.plans settings maximal = m'.plans settings' maximal := by
  rw [TestModel.plans, TestModel.plans, same.behavior, same.resolve_eq]

theorem shortestPlans_eq (same : SameOptions m settings m' settings') (maximal : Bool) :
    m.shortestPlans settings maximal = m'.shortestPlans settings' maximal :=
  (same.add rfl).plans_eq maximal

theorem simplePlans_eq (same : SameOptions m settings m' settings') (maximal : Bool) :
    m.simplePlans settings maximal = m'.simplePlans settings' maximal :=
  (same.add rfl).plans_eq maximal

theorem transitionKey_eq (same : SameOptions m settings m' settings') (step : Step σ) :
    m.transitionKey settings step = m'.transitionKey settings' step := by
  rw [TestModel.transitionKey, TestModel.transitionKey, same.resolve_eq]

theorem allStates_eq (same : SameOptions m settings m' settings') :
    m.allStates settings = m'.allStates settings' := by
  rw [TestModel.allStates, TestModel.allStates, same.resolve_eq, same.shortestPlans_eq]

theorem testPath_eq (same : SameOptions m settings m' settings') (path : Path σ) (context : γ) :
    m.testPath settings path context = m'.testPath settings' path context := by
  rw [TestModel.testPath, TestModel.testPath, same.behavior, same.resolve_eq]

theorem testPlan_eq (same : SameOptions m settings m' settings') (plan : Plan σ) (context : γ) :
    m.testPlan settings plan context = m'.testPlan settings' plan context := by
  simp only [TestModel.testPlan_eq, same.resolve_eq, same.testPath_eq]

theorem testPlansGiven_eq (same : SameOptions m settings m' settings') (context : γ) (plans : List (Plan σ)) :
    m.testPlansGiven settings context plans = m'.testPlansGiven settings' context plans := by
  induction plans with
  | nil => rfl
  | cons plan plans ih =>
    rw [TestModel.testPlansGiven, TestModel.testPlansGiven, same.testPlan_eq, ih]

/-- What a call does is determined by the behavior and by the options that it finds. -/
theorem sameCalls (same : SameOptions m settings m' settings') : SameCalls m settings m' settings' where
  plans := same.plans_eq
  shortestPlans := same.shortestPlans_eq
  shortestPlansTo goal maximal := by
    rw [TestModel.shortestPlansTo, TestModel.shortestPlansTo, same.shortestPlans_eq]
  simplePlans := same.simplePlans_eq
  simplePlansTo goal maximal := by
    rw [TestModel.simplePlansTo, TestModel.simplePlansTo, same.simplePlans_eq]
  allStates := same.allStates_eq
  allTransitions := by
    simp only [TestModel.allTransitions_eq, same.behavior, same.resolve_eq, same.allStates_eq,
      same.transitionKey_eq]
  describeState s := by
    rw [TestModel.describeState, TestModel.describeState, same.behavior, same.resolve_eq]
  stateKey s := by
    rw [TestModel.stateKey, TestModel.stateKey, same.resolve_eq]
  transitionKey := same.transitionKey_eq
  testState s context := by
    rw [TestModel.testState, TestModel.testState, same.behavior, same.resolve_eq]
  testTransition step context := by
    rw [TestModel.testTransition, TestModel.testTransition, same.resolve_eq]
  testPath := same.testPath_eq
  testPlan := same.testPlan_eq
  testPlansGiven := same.testPlansGiven_eq
  testPlans context maximal := by
    simp only [TestModel.testPlans, same.plans_eq, same.testPlansGiven_eq]

end SameOptions

end

end TestModel

/-! ## Histories -/

namespace Model

/-- The settings that the question is asked with. -/
def Query.settings : Query σ κ γ ω → List (Setting σ κ γ ω)
  | plans settings _ | shortestPlans settings _ | simplePlans settings _ | shortestPlansTo settings _ _
  | simplePlansTo settings _ _ | allStates settings | allTransitions settings | stateKey settings _
  | transitionKey settings _ | describeState settings _ => settings
  | getCoverage _ | testCoverage _ => []

/-- The question without its settings. -/
def Query.withoutSettings : Query σ κ γ ω → Query σ κ γ ω
  | plans _ maximal => plans [] maximal
  | shortestPlans _ maximal => shortestPlans [] maximal
  | simplePlans _ maximal => simplePlans [] maximal
  | shortestPlansTo _ goal maximal => shortestPlansTo [] goal maximal
  | simplePlansTo _ goal maximal => simplePlansTo [] goal maximal
  | allStates _ => allStates []
  | allTransitions _ => allTransitions []
  | stateKey _ s => stateKey [] s
  | transitionKey _ step => transitionKey [] step
  | describeState _ s => describeState [] s
  | getCoverage criteria => getCoverage criteria
  | testCoverage criteria => testCoverage criteria

/-- The settings that the operation is done with. -/
def Operation.settings : Operation σ κ γ ω → List (Setting σ κ γ ω)
  | testState settings _ _ | testTransition settings _ _ | testPath settings _ _ | testPlan settings _ _
  | testPlansGiven settings _ _ | testPlans settings _ _ => settings
  | ask q => q.settings
  | resetCoverage | meanwhile _ => []

/-- The operation without its settings. -/
def Operation.withoutSettings : Operation σ κ γ ω → Operation σ κ γ ω
  | testState _ s context => testState [] s context
  | testTransition _ step context => testTransition [] step context
  | testPath _ path context => testPath [] path context
  | testPlan _ plan context => testPlan [] plan context
  | testPlansGiven _ plans context => testPlansGiven [] plans context
  | testPlans _ maximal context => testPlans [] maximal context
  | ask q => ask q.withoutSettings
  | resetCoverage => resetCoverage
  | meanwhile change => meanwhile change

variable [KeyType κ]

theorem Query.answer_withoutSettings (m : TestModel σ κ γ ω) (coverage : Coverage σ κ)
    (q : Query σ κ γ ω) :
    q.withoutSettings.answer (m.withSettings q.settings) coverage = q.answer m coverage := by
  have same := (m.sameOptions_withSettings q.settings).sameCalls
  cases q with
  | plans settings maximal => exact congrArg (Except.map _) (same.plans maximal).symm
  | shortestPlans settings maximal => exact congrArg (Except.map _) (same.shortestPlans maximal).symm
  | simplePlans settings maximal => exact congrArg (Except.map _) (same.simplePlans maximal).symm
  | shortestPlansTo settings goal maximal =>
    exact congrArg (Except.map _) (same.shortestPlansTo goal maximal).symm
  | simplePlansTo settings goal maximal =>
    exact congrArg (Except.map _) (same.simplePlansTo goal maximal).symm
  | allStates settings => exact congrArg (Except.map _) same.allStates.symm
  | allTransitions settings => exact congrArg (Except.map _) same.allTransitions.symm
  | stateKey settings s => exact congrArg (Except.map _) (same.stateKey s).symm
  | transitionKey settings step => exact congrArg (Except.map _) (same.transitionKey step).symm
  | describeState settings s => exact congrArg (Except.map _) (same.describeState s).symm
  | getCoverage criteria => exact congrArg (answer · coverage (.getCoverage criteria)) m.withSettings_nil
  | testCoverage criteria => exact congrArg (answer · coverage (.testCoverage criteria)) m.withSettings_nil

/-- An operation does the same without its settings on the model that has them. -/
theorem Operation.run_withoutSettings (m : TestModel σ κ γ ω) (op : Operation σ κ γ ω) :
    op.withoutSettings.run (m.withSettings op.settings) = op.run m := by
  have same := (m.sameOptions_withSettings op.settings).sameCalls
  cases op with
  | testState settings s context => exact (same.testState s context).symm
  | testTransition settings step context => exact (same.testTransition step context).symm
  | testPath settings path context => exact congrArg discard (same.testPath path context).symm
  | testPlan settings plan context => exact congrArg discard (same.testPlan plan context).symm
  | testPlansGiven settings plans context => exact congrArg discard (same.testPlansGiven context plans).symm
  | testPlans settings maximal context => exact congrArg discard (same.testPlans context maximal).symm
  | ask q => exact congrArg Run.ask (funext fun coverage => q.answer_withoutSettings m coverage)
  | resetCoverage => rfl
  | meanwhile change => rfl

end Model

namespace TestModel

variable [KeyType κ]

/-- Over a history the settings of each operation count for that operation alone; the next one finds the
options of the model again. -/
theorem after_eq_foldl (m : TestModel σ κ γ ω) (ops : List (Operation σ κ γ ω)) (session : Session σ κ ω) :
    m.after ops session = ops.foldl (fun session op =>
      ((op.withoutSettings.run (m.withSettings op.settings)).run session).2) session := by
  simp only [after, Operation.run_withoutSettings]

/-- **Settings of a call act as options of the model.** Known settings can be applied to the options of a
model. Whatever is called with settings does the same as without any on the model that has them, and over
any history they count for their own operations only. -/
theorem settings_act_as_options (m : TestModel σ κ γ ω) (settings : List (Setting σ κ γ ω)) :
    (∀ base, m.options = .ok base → (∀ s ∈ settings, s.unknownName? = none) →
      (m.withSettings settings).options = .ok (settings.foldl Options.apply base)) ∧
      SameCalls m settings (m.withSettings settings) [] ∧
      ∀ ops session, m.after ops session = ops.foldl (fun session op =>
        ((op.withoutSettings.run (m.withSettings op.settings)).run session).2) session :=
  ⟨fun _ given known => m.options_withSettings given known,
    (m.sameOptions_withSettings settings).sameCalls, m.after_eq_foldl⟩

/-- At most two nodes of the carousel, and one test for all of its places. -/
def shortRide : List (Setting (Search.Place × Nat) String String CallLog) :=
  [.limit (some 2), .stateTests [(wildcard, fun _ => note "anywhere")]]

/-- The carousel has four nodes and a test for the first place that says "elsewhere". With the settings of the short
ride the search is stopped and the test says "anywhere", as on the model that has them. -/
theorem shortRide_acts_as_options :
    (ride.plans []).map List.length = .ok 4 ∧
      ride.plans shortRide = .error (.limitExceeded 2) ∧
      (ride.withSettings shortRide).plans [] = .error (.limitExceeded 2) ∧
      ((ride.testState [] (.first, 0) "page").run ⟨{}, []⟩).2.world = [("page", "elsewhere")] ∧
      ((ride.testState shortRide (.first, 0) "page").run ⟨{}, []⟩).2.world = [("page", "anywhere")] ∧
      (((ride.withSettings shortRide).testState [] (.first, 0) "page").run ⟨{}, []⟩).2.world =
        [("page", "anywhere")] := by
  obtain ⟨-, same, -⟩ := settings_act_as_options ride shortRide
  have stopped : ride.plans shortRide = .error (.limitExceeded 2) := rfl
  have tested : ((ride.testState shortRide (.first, 0) "page").run ⟨{}, []⟩).2.world = [("page", "anywhere")] := rfl
  refine ⟨rfl, stopped, ?_, rfl, tested, ?_⟩
  · rw [← same.plans]
    exact stopped
  · rw [← same.testState]
    exact tested

end TestModel

end StateWalk
