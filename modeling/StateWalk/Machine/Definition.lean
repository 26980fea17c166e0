import StateWalk.Event

/-!
# Machine definitions

A machine is defined by a tree of nodes. Each node may have an explicit id, a kind, an initial
child, a description, transitions for the types of events, and child nodes; lists of transitions
and of children stand in the order of their declaration.

A transition is guarded by a condition on the context and the event, updates the context by a list
of actions, and leads to a target or stays.
-/

namespace StateWalk.Machine

/-- A condition on a context and an event. -/
abbrev Guard := Value → Event → Except Fault Bool

/-- The new context, from the old one and an event. -/
abbrev Action := Value → Event → Except Fault Value

structure Transition where
  target : Option String := none
  guard : Option Guard := none
  actions : List Action := []

/-- What stands in the place of a transition. -/
inductive Declared where
  | transition (t : Transition)
  /-- A mapping whose target is no text. -/
  | misdirected (target : Value)
  /-- A value that means no transition. -/
  | invalid (v : Value)

/-- Transitions by event type. -/
abbrev Declarations := List (String × List Declared)

/-- The definition of a node. -/
structure Definition where
  id : Option String := none
  kind : Option String := none
  initial : Option String := none
  description : Option String := none
  on : Declarations := []
  children : List (String × Definition) := []
  deriving Inhabited

/-- The definition of a machine. Its id is missing, null or a text. -/
structure MachineDefinition where
  id : Option (Option String) := none
  context : Value := .null
  root : Definition

/-- The id of a machine whose definition has none. -/
def defaultId : String := "(machine)"

namespace Declared

def ofEntries (es : Entries) : Declared :=
  let entry (name : String) : Value := (Entries.find? es (.text name)).getD .null
  let guard : Option Guard := match entry "cond" with
    | .null => none
    | v => some fun _ _ => .error v.refusal
  let actions : List Value := match entry "actions" with
    | .null => []
    | .list vs | .tuple vs => vs
    | v => [v]
  let transition (target : Option String) : Transition :=
    { target, guard, actions := actions.map fun v _ _ => .error v.refusal }
  match entry "target" with
  | .null => .transition (transition none)
  | v =>
    match v.text? with
    | some target => .transition (transition (some target))
    | none => .misdirected v

/-- A transition given by a plain value: nothing, a target, or a mapping. A mapping's guard and
actions are values and refuse to be called. -/
def ofValue : Value → Declared
  | .null => .transition {}
  | .text target | .textMember _ target => .transition { target := some target }
  | .mapping es => ofEntries es
  | v => .invalid v

/-- The transitions given by a plain value: none, those of a sequence, or one. -/
def allOfValue : Value → List Declared
  | .null => []
  | .list vs | .tuple vs => vs.map ofValue
  | v => [ofValue v]

def target? : Declared → Option Value
  | misdirected target => some target
  | _ => none

/-- The transition; what is misdirected is left for `Definition.misdirections`. -/
def transition? : Declared → Except Fault (Option Transition)
  | transition t => .ok (some t)
  | misdirected _ => .ok none
  | invalid v => .error (.invalidTransition v)

end Declared

namespace Definition

mutual

/-- The targets that are no texts, in the order of their declaration. -/
def misdirections : Definition → List Value
  | ⟨_, _, _, _, on, children⟩ =>
    on.flatMap (fun entry => entry.2.filterMap Declared.target?) ++ misdirectionsAmong children

def misdirectionsAmong : List (String × Definition) → List Value
  | [] => []
  | (_, definition) :: rest => misdirections definition ++ misdirectionsAmong rest

end

end Definition

end StateWalk.Machine
