import StateWalk.Value.Mapping

/-!
# The order of values

`less` orders two numbers by their value, texts by their characters, bytes by their numbers, moments
of one kind by time, and sequences of one kind by their first difference; a set is less than another
one if it is a proper part of it. Other values are in no order. `sort` puts values in ascending order
and keeps the order of those that are not less than each other.
-/

namespace StateWalk.Value

/-- The number that a value counts as. -/
def number? (v : Value) : Option Binary64.Exact :=
  match v.int? with
  | some n => some (.finite n 0)
  | none => v.float?.map Binary64.exact

/-- The order of values without an order of their parts. -/
def lessPlain (v w : Value) : Except Fault Bool :=
  match v, w with
  | bytes bs, bytes cs => .ok (decide (bs < cs))
  | date s, date t =>
    match (Moment.ofIso s).isBefore? (Moment.ofIso t) with
    | some b => .ok b
    | none => .error (.notOrdered v w)
  | set vs, set ws | set vs, frozenSet ws | frozenSet vs, set ws | frozenSet vs, frozenSet ws =>
    .ok (decide (vs.length < ws.length) && allWithin vs ws)
  | v, w =>
    match v.text?, w.text?, v.number?, w.number? with
    | some s, some t, _, _ => .ok (decide (s < t))
    | _, _, some x, some y => .ok (x.isLess y)
    | _, _, _, _ => .error (.notOrdered v w)

mutual

def less : Value → Value → Except Fault Bool
  | list vs, w => match w with
    | list ws => lessAll vs ws
    | w => .error (.notOrdered (list vs) w)
  | tuple vs, w => match w with
    | tuple ws => lessAll vs ws
    | w => .error (.notOrdered (tuple vs) w)
  | v, w => lessPlain v w
termination_by structural v => v

/-- The order of sequences; one that begins the other is less. -/
def lessAll : List Value → List Value → Except Fault Bool
  | [], ws => .ok !ws.isEmpty
  | _ :: _, [] => .ok false
  | v :: vs, w :: ws => if v.equals w then lessAll vs ws else less v w
termination_by structural vs => vs

end

/-- Put a value behind those that it is not less than. -/
def insertSorted (v : Value) : List Value → Except Fault (List Value)
  | [] => .ok [v]
  | w :: ws => do
    if ← less v w then return v :: w :: ws
    else return w :: (← insertSorted v ws)

/-- The values in ascending order. -/
def sort (vs : List Value) : Except Fault (List Value) :=
  vs.foldlM (fun sorted v => insertSorted v sorted) []

end StateWalk.Value
