import StateWalk.Plan.Basic
import StateWalk.Value.Mapping

/-!
# Coverage

A tally counts visits by key and keeps, for every key, the subject of its first visit; keys stand
in the order of their first visit. A coverage record has one tally for states and one for
transitions.

`count_record` says what one more visit changes.
-/

namespace StateWalk

/-- A subject and how often it was visited. -/
structure Visited (α : Type) where
  subject : α
  count : Nat

abbrev Tally (κ α : Type) := List (κ × Visited α)

namespace Tally

variable {κ α : Type} [KeyType κ]

def count : Tally κ α → κ → Nat
  | [], _ => 0
  | (k, v) :: rest, key => if KeyType.same k key then v.count else count rest key

/-- Count one more visit. -/
def record (t : Tally κ α) (key : κ) (subject : α) : Tally κ α :=
  match t with
  | [] => [(key, ⟨subject, 1⟩)]
  | (k, v) :: rest =>
    if KeyType.same k key then (k, { v with count := v.count + 1 }) :: rest
    else (k, v) :: record rest key subject

theorem count_record [LawfulKeyType κ] [DecidableEq κ] (t : Tally κ α) (key other : κ)
    (subject : α) :
    (t.record key subject).count other = t.count other + if key = other then 1 else 0 := by
  induction t with
  | nil => by_cases h : key = other <;> simp [record, count, LawfulKeyType.same_iff, h]
  | cons e t ih =>
    obtain ⟨k, v⟩ := e
    by_cases hk : k = key
    · subst hk
      by_cases h : k = other <;> simp [record, count, LawfulKeyType.same_iff, h]
    · by_cases h : k = other
      · subst h
        simp [record, count, LawfulKeyType.same_iff, hk, Ne.symm hk]
      · simp [record, count, LawfulKeyType.same_iff, hk, h, ih]

/-- A tally as a mapping to records of the given kind; its subjects have a field of the given name. -/
def toValue (kind name : String) (key : κ → Value) (subject : α → Value) (t : Tally κ α) : Value :=
  .mapping (t.map fun (k, v) =>
    (key k, .record kind [(name, subject v.subject), ("count", .int v.count)] []))

end Tally

/-- Visits of states, by their keys, and of transitions, by texts. -/
structure Coverage (σ κ : Type) where
  states : Tally κ σ := []
  transitions : Tally String (Step σ) := []

namespace Coverage

variable {σ κ : Type} [KeyType κ]

def addState (c : Coverage σ κ) (key : κ) (s : σ) : Coverage σ κ :=
  { c with states := c.states.record key s }

def addTransition (c : Coverage σ κ) (key : String) (step : Step σ) : Coverage σ κ :=
  { c with transitions := c.transitions.record key step }

def stateCount (c : Coverage σ κ) (key : κ) : Nat := c.states.count key

def transitionCount (c : Coverage σ κ) (key : String) : Nat := c.transitions.count key

/-- The visits of a state, by a key that states can be filed under. -/
def visitsOfState (c : Coverage σ κ) (key : κ) : Except Fault Nat := do
  KeyType.check key
  return c.stateCount key

/-- A coverage record as a value. -/
def toValue (c : Coverage Value Value) : Value :=
  .record "TestModelCoverage"
    [("states", c.states.toValue "StateCoverage" "state" id id),
      ("transitions", c.transitions.toValue "TransitionCoverage" "step" .text Step.toValue)] []

/-- The visits of a key that a coverage record counts in one of its tallies, by any value that can be
a key. Other values are asked for the operation and fail to answer. -/
def askVisits (tally operation : String) (c key : Value) : Except Fault Value := do
  match c, c.field tally with
  | .record _ _ _, .ok (.mapping es) =>
    match ← Entries.lookup es key with
    | some v => v.field "count"
    | none => return .int 0
  | _, _ => throw (c.callFault operation)

end Coverage

inductive Status where
  | covered
  | uncovered
  | skipped
  deriving DecidableEq, Repr

def Status.name : Status → String
  | covered => "covered"
  | uncovered => "uncovered"
  | skipped => "skipped"

/-- A named condition on coverage; one that is skipped is not evaluated. -/
structure Criterion (σ κ : Type) where
  predicate : Coverage σ κ → Except Fault Bool
  description : String
  skip : Bool := false

namespace Criterion

variable {σ κ : Type}

def status (c : Criterion σ κ) (coverage : Coverage σ κ) : Except Fault Status :=
  if c.skip then .ok .skipped
  else do if ← c.predicate coverage then return .covered else return .uncovered

/-- Every criterion with its status. -/
def evaluate (coverage : Coverage σ κ) (criteria : List (Criterion σ κ)) :
    Except Fault (List (Criterion σ κ × Status)) :=
  criteria.mapM fun c => do return (c, ← c.status coverage)

/-- The descriptions of the uncovered criteria. -/
def uncovered (results : List (Criterion σ κ × Status)) : List String :=
  (results.filter fun r => r.2 == .uncovered).map fun r => r.1.description

/-- Fails if a criterion is uncovered. -/
def requireCovered (results : List (Criterion σ κ × Status)) : Except Fault Unit :=
  match uncovered results with
  | [] => .ok ()
  | descriptions => .error (.uncovered descriptions)

end Criterion

end StateWalk
