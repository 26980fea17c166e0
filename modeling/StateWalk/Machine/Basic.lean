import StateWalk.Behavior
import StateWalk.Machine.Snapshot
import StateWalk.Machine.Validation

/-!
# Machines

A machine is a checked tree of nodes with an initial context. The active leaf of a snapshot and its
ancestors are asked in turn for an enabled transition: the first declared transition for the type
of the event that has no guard or whose guard holds. Its actions update the context, and its target
is entered down to a leaf. An event that enables nothing changes only the record of the last event.
-/

namespace StateWalk

structure Machine where
  id : String
  root : Machine.Node
  context : Value := .null

namespace Machine

/-- The event of the initial snapshot. -/
def initialEvent : Event := .ofType "sporocarp.init"

/-- The machine of a definition without problems. -/
def ofDefinition (d : MachineDefinition) : Except Fault Machine := do
  match d.id.getD (some defaultId) with
  | none => throw (.notText 0 .null)
  | some id =>
    let root ← Node.build id [] d.root
    match d.root.misdirections, problems root with
    | target :: _, _ => throw (target.textFault "startswith")
    | [], [] => return ⟨id, root, d.context⟩
    | [], found => throw (.invalidMachine id found)

/-- The state value of the node at a path. -/
def valueAt : List String → Value
  | [] => .mapping []
  | [key] => .text key
  | key :: path => .mapping [(.text key, valueAt path)]

/-- Above the leaf, a state value is a mapping with one entry. -/
theorem valueAt_cons_cons (key next : String) (path : List String) :
    valueAt (key :: next :: path) = .mapping [(.text key, valueAt (next :: path))] := rfl

/-- A child, if there is one of this key. -/
def child (n : Node) (key : Value) : Except Fault (String × Node) :=
  match key.text?.bind fun name => (Keyed.find? n.children name).map fun c => (name, c) with
  | some found => .ok found
  | none => .error (.missingEntry key)

mutual

/-- The path below a node that a state value denotes, by its first entries. -/
def pathIn (n : Node) : Value → Except Fault (List String)
  | .text s => do return [(← child n (.text s)).1]
  | .textMember _ s => do return [(← child n (.text s)).1]
  | .mapping es => pathInFirst n es
  | _ => .ok []

def pathInFirst (n : Node) : List (Value × Value) → Except Fault (List String)
  | [] => .ok []
  | (k, v) :: _ => do
    let (key, below) ← child n k
    return key :: (← pathIn below v)

end

/-- The path of the active leaf. -/
def leaf (m : Machine) (value : Value) : Except Fault (List String) := pathIn m.root value

def initial (m : Machine) : Snapshot := ⟨valueAt m.root.entry, m.context, some initialEvent⟩

/-- The transitions that a node and its ancestors declare for a type of event, each with the path
of its node, in the order in which they are tried. -/
def candidates (m : Machine) (path : List String) (type : String) :
    List (List String × Transition) :=
  (ancestors path).flatMap fun source =>
    (((m.root.at? source).bind fun n => Keyed.find? n.on type).getD []).map fun t => (source, t)

/-- The transitions that are tried for an event. Types are looked up in tables, so the type must be
one that can be a key; only texts are declared. -/
def candidatesFor (m : Machine) (path : List String) (e : Event) :
    Except Fault (List (List String × Transition)) := do
  e.type.checkKey
  return (e.type.text?.map (m.candidates path)).getD []

/-- The first transition without a guard or with one that holds. -/
def firstEnabled (context : Value) (e : Event) :
    List (List String × Transition) → Except Fault (Option (List String × Transition))
  | [] => .ok none
  | (source, t) :: rest =>
    match t.guard with
    | none => .ok (some (source, t))
    | some guard => do if ← guard context e then return some (source, t) else firstEnabled context e rest

/-- Run actions from left to right. -/
def runActions (actions : List Action) (context : Value) (e : Event) : Except Fault Value :=
  actions.foldlM (fun context action => action context e) context

/-- The state value after a target is entered. -/
def enter (m : Machine) (source : List String) (target : String) : Except Fault Value :=
  match resolve m.root source target with
  | none => .error (.missingEntry (.text target))
  | some path =>
    match m.root.at? path with
    | none => .error (.missingEntry (.text target))
    | some n => .ok (valueAt (path ++ n.entry))

/-- The transitions that are tried in a state value for an event. -/
def tried (m : Machine) (value : Value) (e : Event) :
    Except Fault (List (List String × Transition)) := do
  m.candidatesFor (← m.leaf value) e

/-- Take a transition that the node at `source` declares. -/
def take (m : Machine) (s : Snapshot) (source : List String) (t : Transition) (e : Event) :
    Except Fault Snapshot := do
  let context ← runActions t.actions s.context e
  match t.target with
  | none => return ⟨s.value, context, some e⟩
  | some target => return ⟨← m.enter source target, context, some e⟩

/-- Take the first of these transitions that is enabled. -/
def takeFirst (m : Machine) (s : Snapshot) (e : Event) (ts : List (List String × Transition)) :
    Except Fault Snapshot := do
  match ← firstEnabled s.context e ts with
  | some (source, t) => m.take s source t e
  | none => return ⟨s.value, s.context, some e⟩

def transition (m : Machine) (s : Snapshot) (e : Event) : Except Fault Snapshot := do
  m.takeFirst s e (← m.tried s.value e)

/-- The event types that the active leaf and its ancestors handle, each once; none in a final
leaf. -/
def nextEvents (m : Machine) (s : Snapshot) : Except Fault (List String) := do
  let path ← m.leaf s.value
  if ((m.root.at? path).map Node.isFinal).getD false then return []
  let types := (ancestors path).flatMap fun source =>
    ((m.root.at? source).map fun n => n.on.map Prod.fst).getD []
  return types.foldl Text.addNew []

def events (m : Machine) (s : Snapshot) : Except Fault (List Event) := do
  return (← m.nextEvents s).map Event.ofType

/-- The name of the active leaf, with the context unless it is null. A node is named by its
description if it has one that is not empty, else by its id. -/
def describe (m : Machine) (s : Snapshot) : Except Fault String := do
  let path ← m.leaf s.value
  let name := match m.root.at? path with
    | none => ""
    | some n =>
      match n.description with
      | some "" | none => "#" ++ n.id
      | some description => description
  let context ← match s.context with
    | .null => pure ""
    | context => pure s!" ({← context.key})"
  return s!"state: \"{name}\"" ++ context

/-- The path of the node with an id, which may be written with leading `#` signs. -/
def nodePath? (m : Machine) (id : String) : Option (List String) :=
  pathOfId m.root (String.ofList (id.toList.dropWhile (· == '#')))

def display (m : Machine) : String := s!"TestMachine(id={String.ofList (Text.quoted m.id)})"

/-- A machine as a behavior of snapshots. -/
def behavior (m : Machine) : Behavior Snapshot String where
  initial := m.initial
  transition := m.transition
  events s := .after (m.events s) fun es => .ofList (es.map Event.toValue)
  describe := some m.describe
  hasActive s := some fun key => .ok (s.isActive key)

/-- The step of a machine from a value with the fields of a snapshot. The context is read only once
it is known which transitions are tried. -/
def transitionOf (m : Machine) (v : Value) (e : Event) : Except Fault Value := do
  let value ← v.field "value"
  let ts ← m.tried value e
  let context ← v.field "context"
  return (← m.takeFirst { value, context } e ts).toValue

def eventsOf (m : Machine) (v : Value) : Except Fault (List Event) := do
  m.events { value := ← v.field "value" }

/-- The description of a value with the fields of a snapshot; the state value must denote a leaf
before the context is read. -/
def describeOf (m : Machine) (v : Value) : Except Fault String := do
  let value ← v.field "value"
  let _ ← m.leaf value
  m.describe { value, context := ← v.field "context" }

/-- A machine as a behavior of values that have the fields of a snapshot. -/
def valueBehavior (m : Machine) (κ : Type) [KeyType κ] : Behavior Value κ where
  initial := m.initial.toValue
  transition := m.transitionOf
  events v := .after (m.eventsOf v) fun es => .ofList (es.map Event.toValue)
  describe := some fun v => do return KeyType.ofText (← m.describeOf v)
  hasActive := Snapshot.hasActive

end Machine

end StateWalk
