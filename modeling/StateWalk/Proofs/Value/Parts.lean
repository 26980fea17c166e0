import Mathlib.Logic.Relation
import StateWalk.Value.Canonical

/-!
# Parts of values

The parts of a value are what its canonical form is made of: its items, entries and compared fields, and for a
validated record what it is dumped as. A value is larger than its parts, so what holds of a value if it holds of
its parts holds of every value (`induction_on_parts`).

The parts say where a key is missing: a value has one unless a validated record whose dump fails is found in it, at
any depth (`hasKey_iff`).
-/

namespace StateWalk.Value

/-! ## Parts -/

/-- The form of the second value is made of that of the first, and of none that is made of this in turn. -/
inductive IsPart : Value → Value → Prop where
  | underlying (n : Naming) (v : Value) : IsPart v (member n v)
  | listItem {v : Value} {vs : List Value} : v ∈ vs → IsPart v (list vs)
  | tupleItem {v : Value} {vs : List Value} : v ∈ vs → IsPart v (tuple vs)
  | setItem {v : Value} {vs : List Value} : v ∈ vs → IsPart v (set vs)
  | frozenSetItem {v : Value} {vs : List Value} : v ∈ vs → IsPart v (frozenSet vs)
  | mappingKey {e : Value × Value} {es : List (Value × Value)} : e ∈ es → IsPart e.1 (mapping es)
  | mappingValue {e : Value × Value} {es : List (Value × Value)} : e ∈ es → IsPart e.2 (mapping es)
  | recordField {className : String} {f : String × Value} {fs : List (String × Value)} {uncompared : List String} :
      f ∈ fs → uncompared.contains f.1 = false → IsPart f.2 (record className fs uncompared)
  | dumped (n : Naming) (fs : List (String × Value)) (added : List (Value × Value))
      (members : Except Failure (List Value)) (v : Value) : IsPart v (model n fs added members (.ok v))
  | eventType (type : Value) (payload : List (Value × Value)) : IsPart type (event type payload)
  | payloadKey {type : Value} {e : Value × Value} {payload : List (Value × Value)} : e ∈ payload →
      IsPart e.1 (event type payload)
  | payloadValue {type : Value} {e : Value × Value} {payload : List (Value × Value)} : e ∈ payload →
      IsPart e.2 (event type payload)
  | stepState (s e : Value) : IsPart s (step s e)
  | stepEvent (s e : Value) : IsPart e (step s e)
  | snapshotValue (v c e : Value) : IsPart v (snapshot v c e)
  | snapshotContext (v c e : Value) : IsPart c (snapshot v c e)

theorem sizeOf_snd_lt {α : Type} [SizeOf α] {e : α × Value} {es : List (α × Value)} (mem : e ∈ es) :
    sizeOf e.2 < sizeOf es := by
  have entry := List.sizeOf_lt_of_mem mem
  rw [Prod.mk.sizeOf_spec] at entry
  omega

theorem sizeOf_fst_lt {e : Value × Value} {es : List (Value × Value)} (mem : e ∈ es) :
    sizeOf e.1 < sizeOf es := by
  have entry := List.sizeOf_lt_of_mem mem
  rw [Prod.mk.sizeOf_spec] at entry
  omega

theorem IsPart.sizeOf_lt {v w : Value} (h : IsPart v w) : sizeOf v < sizeOf w := by
  cases h with
  | listItem mem | tupleItem mem | setItem mem | frozenSetItem mem =>
    have smaller := List.sizeOf_lt_of_mem mem
    simp
    omega
  | mappingKey mem | payloadKey mem =>
    have smaller := sizeOf_fst_lt mem
    simp
    omega
  | mappingValue mem | recordField mem | payloadValue mem =>
    have smaller := sizeOf_snd_lt mem
    simp
    omega
  | _ => simp <;> omega

/-- What holds of a value if it holds of its parts holds of every value. -/
theorem induction_on_parts {motive : Value → Prop} (step : ∀ v, (∀ u, IsPart u v → motive u) → motive v)
    (v : Value) : motive v :=
  (measure (sizeOf : Value → Nat)).wf.induction v fun v ih => step v fun u part => ih u part.sizeOf_lt

/-! ## Dumps that fail -/

/-- The first value is found at some depth in the second. -/
def Within (v w : Value) : Prop := Relation.ReflTransGen IsPart v w

/-- A validated record that cannot be dumped. -/
inductive Undumpable : Value → Prop where
  | mk (n : Naming) (fs : List (String × Value)) (added : List (Value × Value))
      (members : Except Failure (List Value)) (failure : Failure) :
      Undumpable (model n fs added members (.error failure))

/-- The canonical form needs a dump that fails. -/
def Stuck (v : Value) : Prop := ∃ u, Within u v ∧ Undumpable u

theorem Stuck.of_part {u v : Value} (part : IsPart u v) (h : Stuck u) : Stuck v := by
  obtain ⟨x, within, undumpable⟩ := h
  exact ⟨x, within.tail part, undumpable⟩

/-- A value without a key has a part without one, unless it is a validated record that cannot be dumped. -/
theorem exists_part_of_hasKey {v : Value} (no : v.hasKey = false) :
    Undumpable v ∨ ∃ u, IsPart u v ∧ u.hasKey = false := by
  have items {vs : List Value} (no : vs.all hasKey = false) : ∃ u ∈ vs, u.hasKey = false := by
    obtain ⟨u, mem, no⟩ := List.all_eq_false.1 no
    exact ⟨u, mem, Bool.of_not_eq_true no⟩
  have entries {es : List (Value × Value)} (no : (mapping es).hasKey = false) :
      ∃ e ∈ es, e.1.hasKey = false ∨ e.2.hasKey = false := by
    rw [hasKey_mapping] at no
    obtain ⟨e, mem, no⟩ := List.all_eq_false.1 no
    rw [Bool.not_eq_true, Bool.and_eq_false_iff] at no
    exact ⟨e, mem, no⟩
  cases v with
  | member n v => exact .inr ⟨v, .underlying n v, no⟩
  | list vs =>
    obtain ⟨u, mem, no⟩ := items ((hasKey_list vs).symm.trans no)
    exact .inr ⟨u, .listItem mem, no⟩
  | tuple vs =>
    obtain ⟨u, mem, no⟩ := items ((hasKey_list vs).symm.trans no)
    exact .inr ⟨u, .tupleItem mem, no⟩
  | set vs =>
    obtain ⟨u, mem, no⟩ := items ((hasKey_set vs).symm.trans no)
    exact .inr ⟨u, .setItem mem, no⟩
  | frozenSet vs =>
    obtain ⟨u, mem, no⟩ := items ((hasKey_set vs).symm.trans no)
    exact .inr ⟨u, .frozenSetItem mem, no⟩
  | mapping es =>
    obtain ⟨e, mem, no | no⟩ := entries no
    · exact .inr ⟨e.1, .mappingKey mem, no⟩
    · exact .inr ⟨e.2, .mappingValue mem, no⟩
  | record className fs uncompared =>
    rw [hasKey_record] at no
    obtain ⟨f, mem, no⟩ := List.all_eq_false.1 no
    rw [Bool.not_eq_true, Bool.or_eq_false_iff] at no
    exact .inr ⟨f.2, .recordField mem no.1, no.2⟩
  | model n fs added members dump =>
    cases dump with
    | ok v => exact .inr ⟨v, .dumped n fs added members v, no⟩
    | error failure => exact .inl ⟨n, fs, added, members, failure⟩
  | event type payload =>
    rw [hasKey_event, Bool.and_eq_false_iff] at no
    rcases no with no | no
    · exact .inr ⟨type, .eventType type payload, no⟩
    · obtain ⟨e, mem, no | no⟩ := entries no
      · exact .inr ⟨e.1, .payloadKey mem, no⟩
      · exact .inr ⟨e.2, .payloadValue mem, no⟩
  | step s e =>
    rw [hasKey_step, Bool.and_eq_false_iff] at no
    rcases no with no | no
    · exact .inr ⟨s, .stepState s e, no⟩
    · exact .inr ⟨e, .stepEvent s e, no⟩
  | snapshot v c e =>
    rw [hasKey_snapshot, Bool.and_eq_false_iff] at no
    rcases no with no | no
    · exact .inr ⟨v, .snapshotValue v c e, no⟩
    · exact .inr ⟨c, .snapshotContext v c e, no⟩
  | _ => cases no

/-- What has a key has parts that do. -/
theorem IsPart.hasKey {u v : Value} (part : IsPart u v) (keyed : v.hasKey = true) : u.hasKey = true := by
  cases part with
  | listItem mem | tupleItem mem => exact List.all_eq_true.1 ((hasKey_list _).symm.trans keyed) u mem
  | setItem mem | frozenSetItem mem => exact List.all_eq_true.1 ((hasKey_set _).symm.trans keyed) u mem
  | mappingKey mem =>
    rw [hasKey_mapping] at keyed
    exact (Bool.and_eq_true_iff.1 (List.all_eq_true.1 keyed _ mem)).1
  | mappingValue mem =>
    rw [hasKey_mapping] at keyed
    exact (Bool.and_eq_true_iff.1 (List.all_eq_true.1 keyed _ mem)).2
  | recordField mem compared =>
    rw [hasKey_record] at keyed
    have field := List.all_eq_true.1 keyed _ mem
    rwa [compared, Bool.false_or] at field
  | eventType type payload =>
    rw [hasKey_event] at keyed
    exact (Bool.and_eq_true_iff.1 keyed).1
  | payloadKey mem =>
    rw [hasKey_event, Bool.and_eq_true_iff, hasKey_mapping] at keyed
    exact (Bool.and_eq_true_iff.1 (List.all_eq_true.1 keyed.2 _ mem)).1
  | payloadValue mem =>
    rw [hasKey_event, Bool.and_eq_true_iff, hasKey_mapping] at keyed
    exact (Bool.and_eq_true_iff.1 (List.all_eq_true.1 keyed.2 _ mem)).2
  | stepState s e =>
    rw [hasKey_step] at keyed
    exact (Bool.and_eq_true_iff.1 keyed).1
  | stepEvent s e =>
    rw [hasKey_step] at keyed
    exact (Bool.and_eq_true_iff.1 keyed).2
  | snapshotValue v c e =>
    rw [hasKey_snapshot] at keyed
    exact (Bool.and_eq_true_iff.1 keyed).1
  | snapshotContext v c e =>
    rw [hasKey_snapshot] at keyed
    exact (Bool.and_eq_true_iff.1 keyed).2
  | _ => exact keyed

theorem Within.hasKey {u v : Value} (within : Within u v) (keyed : v.hasKey = true) : u.hasKey = true := by
  induction within with
  | refl => exact keyed
  | tail _ part ih => exact ih (part.hasKey keyed)

/-- A value has a key unless its form needs a dump that fails. -/
theorem hasKey_iff (v : Value) : v.hasKey = true ↔ ¬ Stuck v := by
  constructor
  · rintro keyed ⟨u, within, undumpable⟩
    have found := within.hasKey keyed
    cases undumpable
    cases found
  · induction v using induction_on_parts with | step v ih
    intro free
    refine Bool.of_not_eq_false fun no => ?_
    obtain undumpable | ⟨u, part, no⟩ := exists_part_of_hasKey no
    · exact free ⟨v, .refl, undumpable⟩
    · rw [ih u part fun stuck => free (stuck.of_part part)] at no
      cases no

end StateWalk.Value
