import StateWalk.Machine.Problem
import StateWalk.Value.Display

/-!
# Faults

Every way in which an operation of this library can fail, one constructor for each cause.
`Fault.message` words them. A function of the caller fails with `raised`, or with the fault of a
library operation that it used.

A fault is an exception of the kind that a test run catches. What stops a program from outside, such
as an interrupt or a demand to exit, is none: it goes through every operation of this library.
-/

namespace StateWalk

inductive Fault where
  /-- A function of the caller failed. -/
  | raised (kind message : String)
  /-- The value is no event, no event type and no mapping. -/
  | notAnEvent (v : Value)
  | noField (v : Value) (name : String)
  /-- A mapping or a machine has nothing under this key. -/
  | missingEntry (key : Value)
  /-- Names with a leading underscore are not payload fields. -/
  | reservedField (name : String)
  | noPayloadField (type name : String)
  /-- A value of this kind can change, so it cannot be a key. -/
  | notAKey (kind : String)
  | notIterable (v : Value)
  /-- The value is no function. -/
  | notCallable (v : Value)
  /-- The value has no items that could be read one by one. -/
  | notAContainer (v : Value)
  | notAnIndex (container key : Value)
  | outOfRange (container : Value)
  /-- A number too large for any place. -/
  | notAPlace (key : Value)
  /-- The item at this place is no key with its value. -/
  | notAnEntry (place : Nat)
  /-- The item at this place has more or fewer parts than a key and its value. -/
  | entryLength (place length : Nat)
  /-- The value at this place of a sequence of texts is no text. -/
  | notText (place : Nat) (v : Value)
  /-- The text of no number. -/
  | notADecimal (s : String)
  /-- Bytes stand where a text should. -/
  | bytesForText
  /-- A context that entries cannot be assigned to. -/
  | notAContext (v : Value)
  | notOrdered (v w : Value)
  /-- A search met more nodes than its limit allows. -/
  | limitExceeded (limit : Int)
  /-- A search without a limit used up the steps it was given. -/
  | unfinished
  | invalidTransition (v : Value)
  | invalidMachine (id : String) (problems : List Machine.Problem)
  | unknownOptions (names : List String)
  | invalidEventSetting (v : Value)
  | unknownEventField (name : String)
  /-- An argument that is given already. -/
  | repeatedEventField (name : String)
  /-- A named argument whose name is no text. -/
  | unnamedArgument
  /-- A setting that cannot be given in this place. -/
  | misplacedSetting
  /-- Something that is no options was given as options. -/
  | notOptions
  | replayMismatch (description reached expected : String)
  /-- The keys of the states that were reached are given as they are shown. -/
  | notDeterministic (state type : String) (reached : List String)
  /-- Coverage criteria that are not met, by their descriptions. -/
  | uncovered (descriptions : List String)

/-- The fault of a function or an object of the caller. -/
def Failure.fault (f : Failure) : Fault := .raised f.kind f.message

namespace Value

/-- The name of a value's kind in messages. -/
def kindName : Value → String
  | null => "NoneType"
  | bool _ => "bool"
  | int _ => "int"
  | float _ => "float"
  | text _ => "str"
  | textMember naming _ | intMember naming _ | member naming _ | model naming _ _ _ _
  | callable naming _ _ _ | other naming => naming.className
  | bytes _ => "bytes"
  | date iso => if iso.contains 'T' then "datetime.datetime" else "datetime.date"
  | list _ => "list"
  | tuple _ => "tuple"
  | set _ => "set"
  | frozenSet _ => "frozenset"
  | mapping _ => "dict"
  | record className _ _ => className
  | event _ _ => "Event"
  | step _ _ => "Step"
  | snapshot _ _ _ => "MachineState"

/-- How a value refuses to be called. -/
def refusal : Value → Fault
  | callable _ _ _ failure => failure.fault
  | v => .notCallable v

end Value

namespace Fault

def message : Fault → String
  | raised _ message => message
  | notAnEvent v => s!"Cannot interpret {String.ofList v.display} as an event"
  | noField v name => s!"'{v.kindName}' object has no attribute '{name}'"
  | missingEntry key => String.ofList key.display
  | reservedField name => name
  | noPayloadField type name => s!"Event '{type}' has no payload field '{name}'"
  | notAKey kind => s!"unhashable type: '{kind}'"
  | notIterable v => s!"'{v.kindName}' object is not iterable"
  | notCallable v => s!"'{v.kindName}' object is not callable"
  | notAContainer v => s!"'{v.kindName}' object is not subscriptable"
  | notAnIndex container key =>
    match container with
    | .text _ | .textMember _ _ => s!"string indices must be integers, not '{key.kindName}'"
    | .bytes _ => s!"byte indices must be integers or slices, not {key.kindName}"
    | v => s!"{v.kindName} indices must be integers or slices, not {key.kindName}"
  | outOfRange container =>
    match container with
    | .text _ | .textMember _ _ => "string index out of range"
    | .bytes _ => "index out of range"
    | v => s!"{v.kindName} index out of range"
  | notAPlace key => s!"cannot fit '{key.kindName}' into an index-sized integer"
  | notAnEntry place =>
    s!"cannot convert dictionary update sequence element #{place} to a sequence"
  | entryLength place length =>
    s!"dictionary update sequence element #{place} has length {length}; 2 is required"
  | notText place v => s!"sequence item {place}: expected str instance, {v.kindName} found"
  | notADecimal s => s!"could not convert string to float: {String.ofList (Text.quoted s)}"
  | bytesForText => "a bytes-like object is required, not 'str'"
  | notAContext v => s!"'{v.kindName}' object is not a mapping"
  | notOrdered v w =>
    s!"'<' not supported between instances of '{v.kindName}' and '{w.kindName}'"
  | limitExceeded _ => "Traversal limit exceeded"
  | unfinished => "Traversal did not finish"
  | invalidTransition v => s!"Invalid transition: {String.ofList v.display}"
  | invalidMachine id problems =>
    s!"Test machine '{id}' is invalid:\n" ++ "\n".intercalate (problems.map Machine.Problem.message)
  | unknownOptions names => "Unknown test model option(s): " ++ ", ".intercalate names
  | invalidEventSetting v => s!"Invalid event configuration: {String.ofList v.display}"
  | unknownEventField name =>
    s!"EventConfig.__init__() got an unexpected keyword argument '{name}'"
  | repeatedEventField name => s!"EventConfig.__init__() got multiple values for argument '{name}'"
  | unnamedArgument => "keywords must be strings"
  | misplacedSetting => "got an unexpected keyword argument"
  | notOptions => "options cannot be replaced"
  | replayMismatch description reached expected =>
    s!"Replaying {description} reached {reached}, expected {expected}"
  | notDeterministic state type reached =>
    s!"Transition from {state} on '{type}' is not deterministic: ["
      ++ ", ".intercalate reached ++ "]"
  | uncovered descriptions =>
    s!"Coverage criteria not met ({descriptions.length} uncovered):\n"
      ++ "\n".intercalate (descriptions.map ("\t" ++ ·))

end Fault

end StateWalk
