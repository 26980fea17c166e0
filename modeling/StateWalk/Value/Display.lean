import StateWalk.Calendar
import StateWalk.Number.Layout
import StateWalk.Text.Quoted
import StateWalk.Value.Basic

/-!
# Values in messages

`display` shows a value as messages do: texts between quotes, lists in brackets, tuples in
parentheses (with a comma after a lone item), mappings and sets in braces, records with the names of
their fields. `label` is the text of a value inside a message; only texts, dates and objects that
have a text of their own differ.
-/

namespace StateWalk.Value

/-- Items with a comma and a blank between them. -/
def commaSeparated (items : List (List Char)) : List Char :=
  List.intercalate [',', ' '] items

/-- The parts of an offset that are not zero: whole days, rounded down, seconds and microseconds. -/
def displayOffset (offset : Int) : List Char :=
  let days := Int.fdiv offset Moment.microsecondsPerDay
  let rest := offset - days * Moment.microsecondsPerDay
  let parts := [("days=", days), ("seconds=", rest / 1000000), ("microseconds=", rest % 1000000)]
  if offset = 0 then "datetime.timezone.utc".toList
  else
    "datetime.timezone(datetime.timedelta(".toList ++
      commaSeparated ((parts.filter fun p => p.2 != 0).map fun p => (p.1 ++ toString p.2).toList) ++
      [')', ')']

/-- The fields of a clock; seconds and microseconds are left out from the end if they are zero. -/
def clockFields (c : Clock) : List Nat :=
  [c.hour, c.minute] ++
    if c.microsecond ≠ 0 then [c.second, c.microsecond]
    else if c.second ≠ 0 then [c.second]
    else []

/-- The constructor call that stands for a date or time. -/
def displayMoment (m : Moment) : List Char :=
  let shown (fields : List Nat) := fields.map fun n => (toString n).toList
  match m.clock with
  | none =>
    "datetime.date(".toList ++ commaSeparated (shown [m.year, m.month, m.day]) ++ [')']
  | some c =>
    let zone := c.offset.toList.map fun offset => "tzinfo=".toList ++ displayOffset offset
    "datetime.datetime(".toList ++
      commaSeparated (shown ([m.year, m.month, m.day] ++ clockFields c) ++ zone) ++ [')']

mutual

def display : Value → List Char
  | null => "None".toList
  | bool true => "True".toList
  | bool false => "False".toList
  | int n => (toString n).toList
  | float x => x.write Layout.messages
  | text s => Text.quoted s
  | textMember naming _ | intMember naming _ | member naming _ | model naming _ _ _ _
  | callable naming _ _ _ | other naming => naming.shown.toList
  | bytes bs => Text.quotedBytes bs
  | date s => displayMoment (Moment.ofIso s)
  | list vs => '[' :: (commaSeparated (displayAll vs) ++ [']'])
  | tuple [v] => '(' :: (display v ++ [',', ')'])
  | tuple vs => '(' :: (commaSeparated (displayAll vs) ++ [')'])
  | set [] => "set()".toList
  | set vs => '\x7b' :: (commaSeparated (displayAll vs) ++ ['\x7d'])
  | frozenSet [] => "frozenset()".toList
  | frozenSet vs => "frozenset(\x7b".toList ++ commaSeparated (displayAll vs) ++ "\x7d)".toList
  | mapping es => '\x7b' :: (commaSeparated (displayEntries es) ++ ['\x7d'])
  | record className fs _ =>
    className.toList ++ '(' :: (commaSeparated (displayFields fs) ++ [')'])
  | event t p =>
    "Event(type=".toList ++ display t ++ ", payload=\x7b".toList ++
      commaSeparated (displayEntries p) ++ "\x7d)".toList
  | step s e => "Step(state=".toList ++ display s ++ ", event=".toList ++ display e ++ [')']
  | snapshot v c e =>
    "MachineState(value=".toList ++ display v ++ ", context=".toList ++ display c ++
      ", event=".toList ++ display e ++ [')']

def displayAll : List Value → List (List Char)
  | [] => []
  | v :: vs => display v :: displayAll vs

def displayEntries : List (Value × Value) → List (List Char)
  | [] => []
  | (k, v) :: es => (display k ++ ':' :: ' ' :: display v) :: displayEntries es

def displayFields : List (String × Value) → List (List Char)
  | [] => []
  | (name, v) :: fs => (name.toList ++ '=' :: display v) :: displayFields fs

end

/-- A value inside a running text: texts and dates stand for themselves. -/
def label : Value → String
  | text s => s
  | textMember naming _ | intMember naming _ | member naming _ | model naming _ _ _ _
  | callable naming _ _ _ | other naming => naming.label
  | date iso => iso.map fun c => if c = 'T' then ' ' else c
  | v => String.ofList v.display

end StateWalk.Value
