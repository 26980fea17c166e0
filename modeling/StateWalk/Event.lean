import StateWalk.KeyType
import StateWalk.Value.Field

/-!
# Events

An event has a type, which is a text unless whoever made it wanted otherwise, and a payload. It can
be noted in three ways: as an event, as its bare type, and as a mapping with an entry `type` beside
the payload. `Event.ofValue` reads all three.

An event's identity is `Event.key`, the key of its mapping notation. `Event.tagOf` and
`Event.keyOf` give the type and the key of a notation directly, and of any other value that has the
fields of an event.
-/

namespace StateWalk

structure Event where
  type : Value
  payload : Entries := []
  deriving Inhabited

namespace Event

/-- Name of the entry that holds the type in the mapping notation. -/
def typeName : String := "type"

/-- Key of the entry that holds the type in the mapping notation. -/
def typeKey : Value := .text typeName

/-- An event of this type without a payload. -/
def ofType (type : String) : Event := ⟨.text type, []⟩

def toValue (e : Event) : Value := .event e.type e.payload

/-- An event as a value; null stands for none. -/
def orNull (e : Option Event) : Value := (e.map toValue).getD .null

/-- The mapping notation: the payload, with the type in its own entry. -/
def entries (e : Event) : Entries := Value.putText e.payload typeName e.type

def key (e : Event) : Except Fault String := (Value.mapping e.entries).key

/-- The key of an event as one of the keys of a type. -/
def keyIn (κ : Type) [KeyType κ] (e : Event) : Except Fault κ := do
  return KeyType.ofText (← e.key)

/-- The type of an event inside a running text. -/
def label (e : Event) : String := e.type.label

/-- Read an event in any of its notations. -/
def ofValue : Value → Except Fault Event
  | .event type payload => .ok ⟨type, payload⟩
  | .text type => .ok ⟨.text type, []⟩
  | .textMember naming type => .ok ⟨.textMember naming type, []⟩
  | .mapping es =>
    match Entries.find? es typeKey with
    | some type => .ok ⟨type, Entries.without es typeKey⟩
    | none => .error (.missingEntry typeKey)
  | v => .error (.notAnEvent v)

/-- The type of an event in any of its notations. -/
def tagOf : Value → Except Fault String
  | .text type | .textMember _ type => .ok type
  | .mapping es =>
    match Entries.find? es typeKey with
    | some type => .ok type.label
    | none => .error (.missingEntry typeKey)
  | v => do return (← v.field typeName).label

/-- The type of an event in any of its notations, inside a running text. -/
def shownTagOf : Value → Except Fault String
  | .textMember naming _ => .ok naming.label
  | v => tagOf v

/-- The payload of a value that has the fields of an event; it may be missing, and one that counts
as nothing is empty. -/
def payloadOf (v : Value) : Except Fault Entries :=
  match v.field "payload" with
  | .ok payload => if payload.isTruthy then payload.entries else .ok []
  | .error _ => .ok []

/-- The key of an event in any of its notations. -/
def keyOf : Value → Except Fault String
  | .text type | .textMember _ type => (ofType type).key
  | .mapping es => (Value.mapping es).key
  | v => do
    let payload ← payloadOf v
    key ⟨← v.field typeName, payload⟩

/-- The payload entry of `key`. -/
def item (e : Event) (key : Value) : Except Fault Value := e.toValue.item key

/-- The payload entry of `key`, or a default. -/
def get (e : Event) (key default : Value) : Except Fault Value := e.toValue.get key default

def field (e : Event) (name : String) : Except Fault Value := e.toValue.field name

/-- The types and the payloads agree, whatever the order of the payloads. -/
def equals (e f : Event) : Bool := e.toValue.equals f.toValue

/-- An event with the entries of a payload. -/
def ofPayload (type payload : Value) : Except Fault Event := do
  return ⟨type, ← payload.entries⟩

/-- An event with these payload entries. -/
def ofPairs (type : Value) (pairs : Entries) : Event := ⟨type, Entries.ofPairs pairs⟩

@[simp]
theorem ofValue_toValue (e : Event) : ofValue e.toValue = .ok e := rfl

end Event

namespace Value

/-- The key of a state together with the type of the event that produced it, in any notation; null
stands for no event. -/
def keyAfter (s event : Value) : Except Fault String := do
  let key ← s.key
  match event with
  | null => return key
  | event => return s!"{key} | {← Event.shownTagOf event}"

end Value

end StateWalk
