import StateWalk.Number.Binary64

/-!
# Values

The states, contexts and payloads that a model works on are opaque to the searches, so they are
dynamic values: scalars, containers, records, and the three records of this library itself
(events, steps and machine snapshots).

What another library decides about an object stands in the value as data: what a validated record is
dumped as and which items it yields, how a function refuses to be called, what a member of an
enumeration or any other object is called and shown as.

`isTruthy` is the reading of a value as a condition, and `equalsNumber` the equality of numbers, by
their value.
-/

namespace StateWalk

/-- How a function or an object of the caller fails. -/
structure Failure where
  kind : String
  message : String
  deriving DecidableEq

/-- What an object is called: the name of its class, its text inside a message, and the text that it
is shown as. -/
structure Naming where
  className : String
  label : String
  shown : String
  deriving DecidableEq

/-- A dynamic value. Mappings, records and payloads keep the order of their entries. -/
inductive Value where
  | null
  | bool (b : Bool)
  | int (n : Int)
  | float (x : Binary64)
  | text (s : String)
  /-- Member of an enumeration of texts: a text, but not a plain one. -/
  | textMember (naming : Naming) (s : String)
  /-- Member of an enumeration of integers. -/
  | intMember (naming : Naming) (n : Int)
  /-- Member of any other enumeration, with its underlying value. -/
  | member (naming : Naming) (underlying : Value)
  | bytes (bs : List UInt8)
  /-- A date or a time, in ISO form. -/
  | date (iso : String)
  | list (items : List Value)
  | tuple (items : List Value)
  | set (items : List Value)
  | frozenSet (items : List Value)
  | mapping (entries : List (Value × Value))
  /-- A record; the fields named by `uncompared` are not part of its identity. -/
  | record (className : String) (fields : List (String × Value)) (uncompared : List String)
  /-- A validated record, with its fields and the entries that were added to it later. The items that
  it yields and the plain value that it is dumped as are its own. -/
  | model (naming : Naming) (fields : List (String × Value)) (added : List (Value × Value))
      (members : Except Failure (List Value)) (dump : Except Failure Value)
  /-- A function, by the names of its module and of itself within it. One that can be called with a
  context and an event is given as a function; one that stands as a value refuses to be called. -/
  | callable (naming : Naming) (module? name? : Option String) (refusal : Failure)
  /-- Any other object. -/
  | other (naming : Naming)
  /-- The type of an event is a text, unless whoever made it wanted otherwise. -/
  | event (type : Value) (payload : List (Value × Value))
  | step (state event : Value)
  /-- A machine's snapshot; the event that led to it is null if there was none. -/
  | snapshot (value context event : Value)
  deriving Inhabited

namespace Value

/-- The module of the operations of events. -/
def operationModule : String := "sporocarp.graph.core"

/-- A text or a member of an enumeration of texts. -/
def text? : Value → Option String
  | text s | textMember _ s => some s
  | _ => none

/-- A text itself, and not a member of an enumeration. -/
def isPlainText : Value → Bool
  | text _ => true
  | _ => false

theorem exists_text_of_isPlainText {v : Value} (plain : v.isPlainText = true) : ∃ s, v = text s := by
  cases v with
  | text s => exact ⟨s, rfl⟩
  | _ => cases plain

/-- The integer that a value counts as; conditions count as zero and one. -/
def int? : Value → Option Int
  | bool b => some (if b then 1 else 0)
  | int n | intMember _ n => some n
  | _ => none

def isTruthy : Value → Bool
  | null => false
  | bool b => b
  | int n | intMember _ n => n != 0
  | float x => !x.isZero
  | text s | textMember _ s => !s.isEmpty
  | bytes bs => !bs.isEmpty
  | list vs | tuple vs | set vs | frozenSet vs => !vs.isEmpty
  | mapping es => !es.isEmpty
  | _ => true

def float? : Value → Option Binary64
  | float x => some x
  | _ => none

/-- Equality of two numbers. -/
def equalsNumber (v w : Value) : Bool :=
  match v.int?, w.int? with
  | some m, some n => m == n
  | some m, none => w.float?.any fun y => y.equalsInt m
  | none, some n => v.float?.any fun x => x.equalsInt n
  | none, none => v.float?.any fun x => w.float?.any fun y => x.equals y

end Value

end StateWalk
