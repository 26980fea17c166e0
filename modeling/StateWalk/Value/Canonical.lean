import StateWalk.Canonical.Printer
import StateWalk.Text.Quoted
import StateWalk.Value.Basic

/-!
# Canonical form and key of a value

`canonical` forgets what does not belong to a value's identity: whether a sequence is a list or a
tuple, that a scalar belongs to an enumeration, the order of a set, the uncompared fields of a
record, and the event of a snapshot. A validated record stands for what it is dumped as.

A mapping all of whose keys are plain texts becomes an object. Any other mapping becomes an object
with the single member `mappingTag`, which lists its entries as pairs in the order of their texts,
so that the integer one and the text `1` stay different keys.

`canonicalText` is the printed canonical form. It is the key of a value, unless a dump fails that the
form needs; `failure?` is the first one.
-/

namespace StateWalk.Value

/-- Name of the only member of a mapping whose keys are not all plain texts. -/
def mappingTag : String := "<mapping>"

/-- A function is known by its module and its name, or by its class if it has no name. -/
def callableName (className : String) (module? name? : Option String) : String :=
  let name := match name? with
    | some "" | none => className
    | some name => name
  "<callable " ++ module?.getD "" ++ "." ++ name ++ ">"

/-- The name that the canonical form of a plain text stands for. -/
def memberName : Canonical → String
  | .text s => s
  | _ => ""

/-- The form of a mapping, from the forms of its entries; `plain` says that every key is a plain
text. -/
def mappingForm (plain : Bool) (entries : List (Canonical × Canonical)) : Canonical :=
  if plain then .object (entries.map fun e => (memberName e.1, e.2))
  else
    let pairs := entries.map fun e => Canonical.array [e.1, e.2]
    .object [(mappingTag, .array (Canonical.sortByText pairs))]

mutual

/-- The canonical form of a value. -/
def canonical : Value → Canonical
  | null => .null
  | bool b => .bool b
  | int n | intMember _ n => .int n
  | float x => .float x
  | text s | textMember _ s => .text s
  | member _ v => canonical v
  | bytes bs => .text (String.ofList (Text.quotedBytes bs))
  | date s => .text s
  | list vs | tuple vs => .array (canonicalAll vs)
  | set vs | frozenSet vs => .array (Canonical.sortByText (canonicalAll vs))
  | mapping es => mappingForm (es.all fun e => e.1.isPlainText) (canonicalEntries es)
  | record _ fs uncompared =>
    .object ((canonicalFields fs).filter fun f => !uncompared.contains f.1)
  | model _ _ _ _ (.ok dumped) => canonical dumped
  | model _ _ _ _ (.error _) => .null
  | callable naming m n _ => .text (callableName naming.className m n)
  | other naming => .text naming.shown
  | event t p =>
    .object
      [("type", canonical t),
        ("payload", mappingForm (p.all fun e => e.1.isPlainText) (canonicalEntries p))]
  | step s e => .object [("state", canonical s), ("event", canonical e)]
  | snapshot v c _ => .object [("value", canonical v), ("context", canonical c)]

def canonicalAll : List Value → List Canonical
  | [] => []
  | v :: vs => canonical v :: canonicalAll vs

/-- The forms of the keys and values of a mapping. -/
def canonicalEntries : List (Value × Value) → List (Canonical × Canonical)
  | [] => []
  | (k, v) :: es => (canonical k, canonical v) :: canonicalEntries es

def canonicalFields : List (String × Value) → List (String × Canonical)
  | [] => []
  | (name, v) :: fs => (name, canonical v) :: canonicalFields fs

end

/-- The canonical text of a value. -/
def canonicalText (v : Value) : String := v.canonical.toText

mutual

/-- The first failure of a dump that the canonical form needs. -/
def failure? : Value → Option Failure
  | member _ v => failure? v
  | list vs | tuple vs | set vs | frozenSet vs => failureAmong? vs
  | mapping es => failureAmongEntries? es
  | record _ fs uncompared => failureAmongFields? uncompared fs
  | model _ _ _ _ (.ok dumped) => failure? dumped
  | model _ _ _ _ (.error failure) => some failure
  | event t p => (failure? t).or (failureAmongEntries? p)
  | step s e => (failure? s).or (failure? e)
  | snapshot v c _ => (failure? v).or (failure? c)
  | _ => none

def failureAmong? : List Value → Option Failure
  | [] => none
  | v :: vs => (failure? v).or (failureAmong? vs)

def failureAmongEntries? : List (Value × Value) → Option Failure
  | [] => none
  | (k, v) :: es => ((failure? k).or (failure? v)).or (failureAmongEntries? es)

/-- The first failure in the fields outside `uncompared`. -/
def failureAmongFields? (uncompared : List String) : List (String × Value) → Option Failure
  | [] => none
  | (name, v) :: fs =>
    (if uncompared.contains name then none else failure? v).or (failureAmongFields? uncompared fs)

end

/-- No dump fails that the canonical form needs. -/
def hasKey (v : Value) : Bool := v.failure?.isNone

theorem canonicalAll_eq_map (vs : List Value) : canonicalAll vs = vs.map canonical := by
  induction vs with
  | nil => rfl
  | cons v vs ih => simp [canonicalAll, ih]

theorem canonicalEntries_eq_map (es : List (Value × Value)) :
    canonicalEntries es = es.map fun e => (e.1.canonical, e.2.canonical) := by
  induction es with
  | nil => rfl
  | cons e es ih => simp [canonicalEntries, ih]

theorem canonicalFields_eq_map (fs : List (String × Value)) :
    canonicalFields fs = fs.map fun f => (f.1, f.2.canonical) := by
  induction fs with
  | nil => rfl
  | cons f fs ih => simp [canonicalFields, ih]

theorem failureAmong?_isNone (vs : List Value) : (failureAmong? vs).isNone = vs.all hasKey := by
  induction vs with
  | nil => rfl
  | cons v vs ih => rw [failureAmong?, Option.isNone_or, ih, List.all_cons, hasKey]

theorem failureAmongEntries?_isNone (es : List (Value × Value)) :
    (failureAmongEntries? es).isNone = es.all fun e => e.1.hasKey && e.2.hasKey := by
  induction es with
  | nil => rfl
  | cons e es ih =>
    rw [failureAmongEntries?, Option.isNone_or, Option.isNone_or, ih, List.all_cons, hasKey, hasKey]

theorem failureAmongEntries?_eq_findSome? (es : List (Value × Value)) :
    failureAmongEntries? es = es.findSome? fun e => e.1.failure?.or e.2.failure? := by
  induction es with
  | nil => rfl
  | cons e es ih =>
    rw [failureAmongEntries?, ih, List.findSome?_cons]
    cases e.1.failure?.or e.2.failure? <;> rfl

theorem failureAmongFields?_isNone (uncompared : List String) (fs : List (String × Value)) :
    (failureAmongFields? uncompared fs).isNone =
      fs.all fun f => uncompared.contains f.1 || f.2.hasKey := by
  induction fs with
  | nil => rfl
  | cons f fs ih =>
    rw [failureAmongFields?, Option.isNone_or, ih, List.all_cons]
    cases uncompared.contains f.1 <;> rfl

theorem hasKey_list (vs : List Value) : (list vs).hasKey = vs.all hasKey := failureAmong?_isNone vs

theorem hasKey_set (vs : List Value) : (set vs).hasKey = vs.all hasKey := failureAmong?_isNone vs

theorem hasKey_mapping (es : List (Value × Value)) :
    (mapping es).hasKey = es.all fun e => e.1.hasKey && e.2.hasKey :=
  failureAmongEntries?_isNone es

theorem hasKey_record (className : String) (fs : List (String × Value)) (uncompared : List String) :
    (record className fs uncompared).hasKey =
      fs.all fun f => uncompared.contains f.1 || f.2.hasKey :=
  failureAmongFields?_isNone uncompared fs

theorem hasKey_event (t : Value) (p : List (Value × Value)) :
    (event t p).hasKey = (t.hasKey && (mapping p).hasKey) := Option.isNone_or

theorem hasKey_step (s e : Value) : (step s e).hasKey = (s.hasKey && e.hasKey) := Option.isNone_or

theorem hasKey_snapshot (v c e : Value) : (snapshot v c e).hasKey = (v.hasKey && c.hasKey) :=
  Option.isNone_or

/-- Set the entry of a text among the entries of a mapping: in place if there is one, else at the
end. -/
def putText : List (Value × Value) → String → Value → List (Value × Value)
  | [], name, v => [(text name, v)]
  | (k, w) :: es, name, v =>
    if k.text? = some name then (k, v) :: es else (k, w) :: putText es name v

/-- An event as a mapping: its payload, with the type in an entry of its own. -/
def eventMapping (type : Value) (payload : List (Value × Value)) : Value :=
  mapping (putText payload "type" type)

end StateWalk.Value
