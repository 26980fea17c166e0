import StateWalk.Reading
import StateWalk.Value.Mapping

/-!
# Fields and items of values

`Value.field` reads a field by its name. Records of all kinds have fields, members of enumerations
have a `value`, and an event has its payload entries beside its type, its payload and its
operations. Where the library asks a state or an event for a part, it reads the field of that name,
so any value with the right fields will do.

`Value.item` reads one item by its place or its key, `Value.items` goes through all of them, and
`Value.entries` makes entries of a value.

A value cannot be called, so calling a field fails in any case; `Value.callFault` says how.
-/

namespace StateWalk

/-- The item at a place of a list; places below zero count from the end. -/
def itemAt? {α : Type} (xs : List α) (place : Int) : Option α :=
  let found := if place < 0 then place + xs.length else place
  if found < 0 then none else xs[found.toNat]?

namespace Value

/-- The names of the operations of an event, which hide payload entries of these names. -/
def eventOperations : List String := ["get", "of", "as_dict"]

/-- An operation of an event as a value. It takes other arguments than a context and an event. -/
def eventOperation (type : Value) (payload : Entries) (name : String) : Value :=
  let owner :=
    if name = "of" then "<class '" ++ operationModule ++ ".Event'>"
    else String.ofList (event type payload).display
  let shown := "<bound method Event." ++ name ++ " of " ++ owner ++ ">"
  callable ⟨"method", shown, shown⟩ (some operationModule) (some ("Event." ++ name))
    ⟨"TypeError", "Event." ++ name ++ "() takes other arguments"⟩

/-- The field of an event: its type, its payload, an operation, or the payload entry of that name.
Names with a leading underscore are no payload fields. -/
def eventField (type : Value) (payload : Entries) (name : String) : Except Fault Value :=
  if name = "type" then .ok type
  else if name = "payload" then .ok (mapping payload)
  else if eventOperations.contains name then .ok (eventOperation type payload name)
  else if name.startsWith "_" then .error (.reservedField name)
  else
    match payload.find? (text name) with
    | some v => .ok v
    | none => .error (.noPayloadField type.label name)

def field (v : Value) (name : String) : Except Fault Value :=
  match v with
  | event type payload => eventField type payload name
  | v =>
    let found : Option Value := match v with
      | record _ fs _ => Keyed.find? fs name
      | model _ fs added _ _ => (Keyed.find? fs name).or (Entries.find? added (text name))
      | step s e => Keyed.find? [("state", s), ("event", e)] name
      | snapshot v c e => Keyed.find? [("value", v), ("context", c), ("event", e)] name
      | member _ v => Keyed.find? [("value", v)] name
      | textMember _ s => Keyed.find? [("value", text s)] name
      | intMember _ n => Keyed.find? [("value", int n)] name
      | _ => none
    match found with
    | some v => .ok v
    | none => .error (.noField v name)

/-- How it fails to call a field of a value: there is none, or it is no operation. -/
def callFault (v : Value) (name : String) : Fault :=
  match v.field name with
  | .error f => f
  | .ok w => w.refusal

/-- How it fails to use an operation of texts on a value that is no text. Bytes have the operation, but
take no text with it. -/
def textFault (v : Value) (name : String) : Fault :=
  match v with
  | bytes _ => .bytesForText
  | v => v.callFault name

/-! ## One item -/

/-- Places lie within these bounds, counted from the start or from the end. -/
def placeBound : Nat := Nat.pow 2 63

/-- The item at a place of a container with these items. -/
def atPlace (container key : Value) (vs : List Value) (place : Int) : Except Fault Value :=
  match itemAt? vs place with
  | some v => .ok v
  | none =>
    if place < -placeBound ∨ placeBound ≤ place then .error (.notAPlace key)
    else .error (.outOfRange container)

/-- The characters of a text, each as a text. -/
def characters (s : String) : List Value := s.toList.map fun c => text c.toString

/-- The numbers that bytes are. -/
def numbersOf (bs : List UInt8) : List Value := bs.map fun b => int b.toNat

/-- The items of a sequence. -/
def sequence? : Value → Option (List Value)
  | list vs | tuple vs => some vs
  | text s | textMember _ s => some (characters s)
  | bytes bs => some (numbersOf bs)
  | _ => none

/-- The entry of a mapping or of a payload, or the item of a sequence. -/
def item (v key : Value) : Except Fault Value :=
  match v with
  | event _ es | mapping es => do
    match ← Entries.lookup es key with
    | some w => return w
    | none => throw (.missingEntry key)
  | v =>
    match v.sequence?, key.int? with
    | some vs, some place => atPlace v key vs place
    | some _, none => .error (.notAnIndex v key)
    | none, _ => .error (.notAContainer v)

/-- The entry of a mapping or of a payload, or a default. -/
def get (v key default : Value) : Except Fault Value :=
  match v with
  | event _ es | mapping es => do return (← Entries.lookup es key).getD default
  | v => .error (v.callFault "get")

/-! ## All items -/

/-- The entries of a payload for the numbers from zero on, until one is missing. -/
def numbered (payload : Entries) : Reading Value :=
  let entry (n : Nat) : Option Value := payload.find? (int n)
  let places := (List.range payload.length).takeWhile fun n => (entry n).isSome
  { items := places.filterMap entry, fault := some (.missingEntry (int places.length)) }

/-- What a value yields when it is gone through: the items of a sequence or set, the keys of a
mapping, the numbered payload entries of an event, and whatever a validated record yields. -/
def items (v : Value) : Reading Value :=
  match v with
  | set vs | frozenSet vs => .ofList vs
  | mapping es => .ofList (es.map Prod.fst)
  | event _ payload => numbered payload
  | model _ _ _ (.ok members) _ => .ofList members
  | model _ _ _ (.error failure) _ => .failed failure.fault
  | v =>
    match v.sequence? with
    | some vs => .ofList vs
    | none => .failed (.notIterable v)

/-- A value at a place of a sequence of entries as an entry, whose key must be one that can be a
key. -/
def entryAt (place : Nat) (v : Value) : Except Fault (Value × Value) :=
  match v.items with
  | ⟨[k, w], none⟩ => do
    k.checkKey
    return (k, w)
  | ⟨parts, none⟩ => .error (.entryLength place parts.length)
  | ⟨_, some (.notIterable _)⟩ => .error (.notAnEntry place)
  | ⟨_, some f⟩ => .error f

/-- The entries that a value holds: those of a mapping, or the items of a sequence of pairs. A value
with a field `keys` is asked for them and fails to answer. -/
def entries (v : Value) : Except Fault Entries :=
  match v with
  | mapping es => .ok es
  | v =>
    match v.field "keys" with
    | .ok operation => .error operation.refusal
    | .error _ => do return Entries.ofPairs (← v.items.placed.mapM fun e => entryAt e.2 e.1)

end Value

end StateWalk
