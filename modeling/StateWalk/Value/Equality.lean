import StateWalk.Calendar
import StateWalk.Value.Canonical

/-!
# Equality of values

`equals` reads numbers by their value, mappings without their order, and times by the instant. Two
records of one class are equal if their fields are, as far as these are compared.

Members of enumerations, functions and other objects are equal if they are one object. A value does
not tell objects apart that are called the same in every way. A number that is none equals nothing.

Tables are stricter: a key finds an entry only if it equals the entry's key and is filed in the same
place. For most values that is the same, but events and snapshots are filed under their canonical
text, which tells numbers of one value and different kinds apart. `sameKey` is this relation. The
items of sets and the keys of mappings are compared by it even where `equals` compares the rest.
-/

namespace StateWalk.Value

mutual

/-- Equality of values; `filed` says that they are also filed in the same place. -/
def agree (filed : Bool) : Value → Value → Bool
  | null, w => match w with
    | null => true
    | _ => false
  | text s, w | textMember _ s, w => match w with
    | text t | textMember _ t => s == t
    | _ => false
  | member n _, w => match w with
    | member m _ => n == m
    | _ => false
  | bytes bs, w => match w with
    | bytes cs => bs == cs
    | _ => false
  | date s, w => match w with
    | date t => (Moment.ofIso s).agree (Moment.ofIso t)
    | _ => false
  | list vs, w => match w with
    | list ws => allAgree filed vs ws
    | _ => false
  | tuple vs, w => match w with
    | tuple ws => allAgree filed vs ws
    | _ => false
  | set vs, w | frozenSet vs, w => match w with
    | set ws | frozenSet ws => vs.length == ws.length && allWithin vs ws
    | _ => false
  | mapping es, w => match w with
    | mapping fs => es.length == fs.length && entriesWithin es fs
    | _ => false
  | record c fs uncompared, w => match w with
    | record d gs _ => c == d && fieldsAgree filed uncompared fs gs
    | _ => false
  | model n fs _ _ _, w => match w with
    | model m gs _ _ _ => n.className == m.className && fieldsAgree filed [] fs gs
    | _ => false
  | callable n owner? name? _, w => match w with
    | callable m owner'? name'? _ => n == m && owner? == owner'? && name? == name'?
    | _ => false
  | other n, w => match w with
    | other m => n == m
    | _ => false
  | event t p, w => match w with
    | event u q =>
      agree false t u && p.length == q.length && entriesWithin p q &&
        (!filed || (eventMapping t p).canonicalText == (eventMapping u q).canonicalText)
    | _ => false
  | step s e, w => match w with
    | step s' e' => agree filed s s' && agree filed e e'
    | _ => false
  | snapshot v c e, w => match w with
    | snapshot v' c' e' =>
      agree false v v' && agree false c c' &&
        (!filed || (snapshot v c e).canonicalText == (snapshot v' c' e').canonicalText)
    | _ => false
  | v, w => equalsNumber v w
termination_by structural v => v

def allAgree (filed : Bool) : List Value → List Value → Bool
  | [], [] => true
  | v :: vs, w :: ws => agree filed v w && allAgree filed vs ws
  | _, _ => false
termination_by structural vs => vs

/-- Every item is an item of the other set. -/
def allWithin : List Value → List Value → Bool
  | [], _ => true
  | v :: vs, ws => ws.any (fun w => agree true v w) && allWithin vs ws
termination_by structural vs => vs

/-- Every entry is an entry of the other mapping. -/
def entriesWithin : List (Value × Value) → List (Value × Value) → Bool
  | [], _ => true
  | (k, v) :: es, fs =>
    fs.any (fun f => agree true k f.1 && agree false v f.2) && entriesWithin es fs
termination_by structural es => es

/-- The fields are, in order, those of the second list; the values of those that are not compared may differ. -/
def fieldsAgree (filed : Bool) (uncompared : List String) :
    List (String × Value) → List (String × Value) → Bool
  | [], [] => true
  | (name, v) :: fs, g :: gs =>
    name == g.1 && (uncompared.contains name || agree filed v g.2) && fieldsAgree filed uncompared fs gs
  | _, _ => false
termination_by structural fs => fs

end

/-- Equality of values. -/
def equals (v w : Value) : Bool := agree false v w

/-- The values are one key of a table. -/
def sameKey (v w : Value) : Bool := agree true v w

end StateWalk.Value
