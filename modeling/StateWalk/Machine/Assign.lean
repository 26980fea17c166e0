import StateWalk.Machine.Definition

/-!
# Assigning to a context

An assignment is an action that gives some entries of the context new values. Each value is a
constant or computed from the old context and the event; all are computed before any is stored. A
constant that stands for a function is called like one, and refuses.

A validated record makes its copies by itself, so how it does that is a parameter (`Copying`).
-/

namespace StateWalk.Machine

/-- The new value of an entry. -/
inductive Assigned where
  | constant (v : Value)
  | computed (f : Value → Event → Except Fault Value)

namespace Assigned

def value (a : Assigned) (context : Value) (e : Event) : Except Fault Value :=
  match a with
  | constant (.callable _ _ _ refusal) => .error refusal.fault
  | constant v => .ok v
  | computed f => f context e

end Assigned

/-- The updates of an assignment; of several for one key the last counts, in the place of the
first. -/
abbrev Updates := List (Value × Assigned)

namespace Updates

def put : Updates → Value → Assigned → Updates
  | [], key, a => [(key, a)]
  | (k, b) :: us, key, a => if key.sameKey k then (k, a) :: us else (k, b) :: put us key a

def ofPairs (pairs : Updates) : Updates := pairs.foldl (fun us u => put us u.1 u.2) []

def values (us : Updates) (context : Value) (e : Event) : Except Fault Entries :=
  us.mapM fun u => do return (u.1, ← u.2.value context e)

end Updates

/-- How validated records make copies of themselves in which some entries are replaced or added. -/
abbrev Copying := Value → Entries → Except Failure Value

section

variable (copying : Copying)

/-- Store entries in a context. A context that counts as nothing is an empty mapping. -/
def store (context : Value) (es : Entries) : Except Fault Value :=
  match context with
  | .model naming fields added members dump =>
    (copying (.model naming fields added members dump) es).mapError Failure.fault
  | .mapping old => .ok (.mapping (Entries.merge old es))
  | v => if v.isTruthy then .error (.notAContext v) else .ok (.mapping es)

def assign (updates : Updates) : Action := fun context e => do
  store copying context (← (Updates.ofPairs updates).values context e)

end

end StateWalk.Machine
