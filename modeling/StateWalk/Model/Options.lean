import StateWalk.Search.Shortest
import StateWalk.Search.Simple

/-!
# Options of a test model

A test model works with the options of its searches and with functions that drive and verify the
system under test. Those act on a world of their own (`Action`) and are handed a test context that
the library passes on unchanged.

A `Setting` replaces one option. `Options.resolve` applies several, and refuses names that are no
option.
-/

namespace StateWalk.Model

variable {σ κ γ ω : Type}

/-- Something done to the world, which may fail and has its effect even then. -/
abbrev Action (ω : Type) := ω → Except Fault Unit × ω

/-- Verifies that the system under test is in a state. -/
abbrev StateTest (σ γ ω : Type) := σ → γ → Action ω

/-- Performs the event of a step on the system under test. -/
abbrev Executor (σ γ ω : Type) := Step σ → γ → Action ω

/-- How an event is performed, and the payloads to try for it. -/
structure EventConfig (σ γ ω : Type) where
  exec : Option (Executor σ γ ω) := none
  cases : Option (σ → Reading Value) := none

/-- What stands for an event type in the options. -/
inductive EventEntry (σ γ ω : Type) where
  | unset
  | executor (exec : Executor σ γ ω)
  | config (c : EventConfig σ γ ω)
  /-- A plain value; a mapping can be read as a configuration and a callable as an executor. -/
  | plain (v : Value)

structure Logger (ω : Type) where
  log : String → ω → ω := fun _ w => w
  error : String → ω → ω := fun _ w => w

/-- Makes the plans of a behavior. -/
abbrev Generator (σ κ : Type) :=
  Behavior σ κ → Search.Options σ κ → Except Fault (List (Plan σ))

structure Options (σ κ γ ω : Type) extends Search.Options σ κ where
  eventEntries : List (String × EventEntry σ γ ω) := []
  stateTests : List (String × StateTest σ γ ω) := []
  /-- Called after every executed event. -/
  afterTransition : Option (Executor σ γ ω) := none
  /-- Called after every verified state. -/
  afterState : Option (StateTest σ γ ω) := none
  /-- Decides which state tests apply to a state. -/
  matcher : Option (σ → String → Except Fault Bool) := none
  logger : Logger ω := {}
  generator : Generator σ κ

/-- One option, with its new value. -/
inductive Setting (σ κ γ ω : Type) where
  | stateKey (f : σ → Option Event → Except Fault κ)
  | eventKey (f : Event → Except Fault κ)
  | events (f : Option (σ → Reading Value))
  | filter (f : Option (σ → Except Fault Bool))
  | limit (n : Option Int)
  | keepTies (b : Bool)
  | describe (f : Option (σ → Except Fault κ))
  | eventEntries (entries : List (String × EventEntry σ γ ω))
  | stateTests (tests : List (String × StateTest σ γ ω))
  | afterTransition (f : Option (Executor σ γ ω))
  | afterState (f : Option (StateTest σ γ ω))
  | matcher (f : Option (σ → String → Except Fault Bool))
  | logger (l : Logger ω)
  | generator (g : Generator σ κ)
  /-- The name of no option. -/
  | unknown (name : String)

namespace Setting

def unknownName? : Setting σ κ γ ω → Option String
  | unknown name => some name
  | _ => none

/-- The name of no option, and one of these. -/
def isUnknownAmong (names : List String) (s : Setting σ κ γ ω) : Bool :=
  s.unknownName?.any names.contains

/-- The setting replaces an option of the searches. -/
def isForSearch : Setting σ κ γ ω → Bool
  | stateKey _ | eventKey _ | events _ | filter _ | limit _ | keepTies _ | describe _ => true
  | _ => false

/-- Fails if there is the name of no option. -/
def checkNames (settings : List (Setting σ κ γ ω)) : Except Fault Unit :=
  match settings.filterMap unknownName? with
  | [] => .ok ()
  | names => .error (.unknownOptions (names.mergeSort fun a b => decide (a ≤ b)))

/-- Fails for settings that cannot be given in their place. -/
def refuse (misplaced : Setting σ κ γ ω → Bool) (settings : List (Setting σ κ γ ω)) :
    Except Fault Unit :=
  if settings.any misplaced then .error .misplacedSetting else .ok ()

end Setting

namespace Options

/-- The options that apply where none are given. -/
def ofKey [KeyType κ] (key : σ → Except Fault String) : Options σ κ γ ω :=
  { Search.Options.ofKey key with generator := Search.shortestPlans }

def apply (o : Options σ κ γ ω) : Setting σ κ γ ω → Options σ κ γ ω
  | .stateKey f => { o with stateKey := f }
  | .eventKey f => { o with eventKey := f }
  | .events f => { o with events := f }
  | .filter f => { o with filter := f }
  | .limit n => { o with limit := n }
  | .keepTies b => { o with keepTies := b }
  | .describe f => { o with describe := f }
  | .eventEntries entries => { o with eventEntries := entries }
  | .stateTests tests => { o with stateTests := tests }
  | .afterTransition f => { o with afterTransition := f }
  | .afterState f => { o with afterState := f }
  | .matcher f => { o with matcher := f }
  | .logger l => { o with logger := l }
  | .generator g => { o with generator := g }
  | .unknown _ => o

/-- Apply settings from left to right. -/
def resolve (o : Options σ κ γ ω) (settings : List (Setting σ κ γ ω)) :
    Except Fault (Options σ κ γ ω) := do
  Setting.checkNames settings
  return settings.foldl apply o

end Options

namespace EventEntry

/-- Fails for what is no field of a configuration: `exec` and `cases` are, and `self` stands for the
configuration itself. -/
def checkField (name : String) : Except Fault Unit :=
  if name = "exec" ∨ name = "cases" then .ok ()
  else if name = "self" then .error (.repeatedEventField name)
  else .error (.unknownEventField name)

/-- A configuration given as a mapping with the entries `exec` and `cases`, and no others. -/
def ofEntries (es : Entries) : Except Fault (EventConfig σ γ ω) := do
  let names ← es.mapM fun e => match e.1.text? with
    | some name => .ok name
    | none => .error .unnamedArgument
  names.forM checkField
  let entry (name : String) : Value := (Entries.find? es (.text name)).getD .null
  return {
    exec := match entry "exec" with
      | .null => none
      | v => some fun _ _ w => (.error v.refusal, w)
    cases := match entry "cases" with
      | .null => none
      | .callable _ _ _ refusal => some fun _ => .failed refusal.fault
      | v => some fun _ => v.items }

/-- The configuration that an entry stands for. -/
def config? (entry : EventEntry σ γ ω) : Except Fault (Option (EventConfig σ γ ω)) :=
  match entry with
  | unset => .ok none
  | executor exec => .ok (some { exec := some exec })
  | config c => .ok (some c)
  | plain .null => .ok none
  | plain (.mapping es) => do return some (← ofEntries es)
  | plain (.callable _ _ _ refusal) => .ok (some { exec := some fun _ _ w => (.error refusal.fault, w) })
  | plain v => .error (.invalidEventSetting v)

end EventEntry

/-- Key of the entries that apply where nothing else does. -/
def wildcard : String := "*"

namespace Options

/-- The configuration of an event type, if it has one. -/
def eventConfig? (o : Options σ κ γ ω) (type : Value) :
    Except Fault (Option (EventConfig σ γ ω)) := do
  ((← Keyed.lookup o.eventEntries type).getD .unset).config?

/-- The executor of an event type, else that of the wildcard. -/
def executor? (o : Options σ κ γ ω) (type : Value) :
    Except Fault (Option (Executor σ γ ω)) := do
  match (← o.eventConfig? type).bind EventConfig.exec with
  | some exec => return some exec
  | none => return (← o.eventConfig? (.text wildcard)).bind EventConfig.exec

/-- The event that a payload of a configuration makes of an event: the entries of the payload except
the type replace those of the event. -/
def withCase (e : Event) : Value → Except Fault Event
  | .mapping es => .ok ⟨e.type, Entries.merge e.payload (Entries.without es Event.typeKey)⟩
  | v => .error (v.callFault "items")

/-- An event as it is tried in a state: one event for each of its cases. -/
def expandAt (o : Options σ κ γ ω) (s : σ) (e : Event) : Except Fault (List Event) := do
  match (← o.eventConfig? e.type).bind EventConfig.cases with
  | none => return [e]
  | some cases => (cases s).mapM (withCase e)

/-- The events to try in a state, with their cases. -/
def expandedEvents (o : Options σ κ γ ω) (b : Behavior σ κ) (s : σ) : Except Fault (List Event) := do
  let expanded ← ((o.events.getD b.events) s).mapM fun v => do o.expandAt s (← Event.ofValue v)
  return expanded.flatten

/-- The options for a search, with the cases of all events. -/
def forSearch (o : Options σ κ γ ω) (b : Behavior σ κ) : Search.Options σ κ :=
  { o.toOptions with
    events := some fun s =>
      .after (o.expandedEvents b s) fun es => .ofList (es.map Event.toValue) }

end Options

end StateWalk.Model
