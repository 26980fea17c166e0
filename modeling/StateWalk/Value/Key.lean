import StateWalk.Fault
import StateWalk.Value.Canonical

/-!
# Keys of values, and values as keys

`Value.key` is the key of a value, its canonical text. `Value.checkKey` asks the opposite question:
whether a value can itself be the key of a table, or an item of a set. Lists, mappings, sets and
records can change, so they cannot, and neither can a tuple with such a part. A collection of keys
can still be asked for a set: it is looked for as the fixed set of its items (`Value.sought`).
-/

namespace StateWalk.Value

/-- The key of a value: its canonical text. -/
def key (v : Value) : Except Fault String :=
  match v.failure? with
  | none => .ok v.canonicalText
  | some failure => .error failure.fault

theorem key_of_hasKey {v : Value} (h : v.hasKey = true) : v.key = .ok v.canonicalText := by
  rw [key, Option.isNone_iff_eq_none.1 h]

theorem key_eq_ok_iff {v : Value} {k : String} : v.key = .ok k ↔ v.hasKey = true ∧ v.canonicalText = k := by
  rw [key, hasKey]
  cases v.failure? <;> simp

theorem exists_key_iff {v : Value} : (∃ k, v.key = .ok k) ↔ v.hasKey = true := by
  simp only [key_eq_ok_iff, exists_and_left, exists_eq', and_true]

mutual

/-- Why a value is no key of a table, if it is none. Events and snapshots are filed under their canonical texts,
so whatever has such a text will do. -/
def changeable? : Value → Option Fault
  | list vs => some (.notAKey (list vs).kindName)
  | set vs => some (.notAKey (set vs).kindName)
  | mapping es => some (.notAKey (mapping es).kindName)
  | record className fs uncompared => some (.notAKey (record className fs uncompared).kindName)
  | model naming fs added members dump => some (.notAKey (model naming fs added members dump).kindName)
  | tuple vs => changeableAmong? vs
  | step s e => (changeable? s).or (changeable? e)
  | event t p => (eventMapping t p).failure?.map Failure.fault
  | snapshot v c e => (snapshot v c e).failure?.map Failure.fault
  | _ => none

def changeableAmong? : List Value → Option Fault
  | [] => none
  | v :: vs => (changeable? v).or (changeableAmong? vs)

end

/-- Fails for values that cannot be keys. -/
def checkKey (v : Value) : Except Fault Unit :=
  match v.changeable? with
  | none => .ok ()
  | some fault => .error fault

/-- What a collection of keys is asked for in place of this value. -/
def sought : Value → Value
  | set vs => frozenSet vs
  | v => v

end StateWalk.Value
