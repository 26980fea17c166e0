import StateWalk.Proofs.Machine.Choice

/-!
# Enumerated events

A leaf that is not final lists every type of event that one of its active nodes declares, each once
(`mem_nextEvents_iff`), and an event of any other type leaves value and context what they are
(`transition_of_unhandled`). So in such a leaf nothing is missed by trying the listed events only.

A final leaf lists nothing, but a step asks its ancestors all the same: events that are not listed there may
lead on (`parcel_recalled`).
-/

namespace StateWalk.Machine

section

variable {d : MachineDefinition} {m : Machine} {s : Snapshot} {path : List String} {n : Node}

/-- An active node of the leaf at `path` declares transitions for the type. -/
def Handles (m : Machine) (path : List String) (type : String) : Prop :=
  ∃ source c, source <+: path ∧ m.root.at? source = some c ∧ type ∈ c.on.map Prod.fst

theorem nextEvents_eq (denotes : m.Denotes s.value path) (here : m.root.at? path = some n) :
    m.nextEvents s = .ok (if n.isFinal then [] else
      ((ancestors path).flatMap fun source =>
        ((m.root.at? source).map fun c => c.on.map Prod.fst).getD []).foldl Text.addNew []) := by
  rw [nextEvents, denotes.leaf]
  simp only [bind, Except.bind, here, Option.map_some, Option.getD_some]
  cases n.isFinal <;> rfl

/-- What a leaf lists that is not final. -/
theorem mem_nextEvents_iff (denotes : m.Denotes s.value path) (here : m.root.at? path = some n)
    (unfinished : n.isFinal = false) {types : List String} (listed : m.nextEvents s = .ok types)
    (type : String) : type ∈ types ↔ m.Handles path type := by
  rw [nextEvents_eq denotes here, unfinished] at listed
  obtain rfl := Except.ok.inj listed
  rw [if_neg Bool.false_ne_true, Text.mem_foldl_addNew, List.mem_flatMap]
  simp only [List.not_mem_nil, false_or, mem_ancestors]
  refine exists_congr fun source => ?_
  rw [exists_and_left]
  refine and_congr_right fun _ => ?_
  cases m.root.at? source with
  | none => simp
  | some c => simp

theorem nodup_nextEvents (denotes : m.Denotes s.value path) (here : m.root.at? path = some n)
    {types : List String} (listed : m.nextEvents s = .ok types) : types.Nodup := by
  rw [nextEvents_eq denotes here] at listed
  obtain rfl := Except.ok.inj listed
  cases n.isFinal with
  | true => exact List.nodup_nil
  | false => exact Text.nodup_foldl_addNew _ List.nodup_nil

/-- An event of a type that no active node declares is only noted. -/
theorem transition_of_unhandled (denotes : m.Denotes s.value path) {e : Event}
    (looked : e.type.checkKey = .ok ()) (unhandled : ∀ type, e.type.text? = some type → ¬ m.Handles path type) :
    m.transition s e = .ok { s with event := some e } := by
  have unasked : m.asked path e = [] := by
    refine List.eq_nil_iff_forall_not_mem.2 fun t mem => ?_
    obtain ⟨source, t⟩ := t
    obtain ⟨active, mem⟩ := mem_asked.1 mem
    obtain ⟨c, type, ts, here, named, on, -⟩ := mem_handlers.1 mem
    exact unhandled type named ⟨source, c, active, here, Keyed.find?_isSome_iff.1 (Option.isSome_of_eq_some on)⟩
  rw [transition_eq denotes looked, unasked]
  rfl

/-- **A leaf that is not final lists every event that can lead on.** In a machine that was made from a
definition, in every state that events lead to, the listed types of events are different. A leaf that is not
final lists what its active nodes declare, and any other event leaves its value and context what they are. A
final leaf lists nothing. -/
theorem nextEvents_complete (made : ofDefinition d = .ok m) (distinct : d.root.DistinctKeys)
    {events : List Event} (run : m.behavior.runFrom m.initial events = .ok s) :
    ∃ path n types, m.leaf s.value = .ok path ∧ m.root.at? path = some n ∧ m.nextEvents s = .ok types ∧
      types.Nodup ∧ (n.isFinal = true → types = []) ∧
      (n.isFinal = false → (∀ type, type ∈ types ↔ m.Handles path type) ∧
        ∀ e : Event, e.type.checkKey = .ok () → (∀ type ∈ types, e.type.text? ≠ some type) →
          m.transition s e = .ok { s with event := some e }) := by
  obtain ⟨path, denotes⟩ := exists_denotes made distinct run
  obtain ⟨n, here, -⟩ := denotes.childless
  obtain ⟨types, listed, -⟩ := denotes.nextEvents
  refine ⟨path, n, types, denotes.leaf, here, listed, nodup_nextEvents denotes here listed, ?_, ?_⟩
  · intro final
    rw [nextEvents_eq denotes here, final, if_pos rfl] at listed
    exact (Except.ok.inj listed).symm
  · intro unfinished
    have complete := mem_nextEvents_iff denotes here unfinished listed
    refine ⟨complete, fun e looked unlisted => transition_of_unhandled denotes looked ?_⟩
    exact fun type named handled => unlisted type ((complete type).2 handled) named

end

/-- The customs list both their own events and those of the nodes around them, and nothing happens to the parcel
on any other event. -/
theorem parcel_sorted : ∃ types, parcelMachine.nextEvents parcelMachine.initial = .ok types ∧
    types.Nodup ∧ (∀ type, type ∈ types ↔ parcelMachine.Handles ["travelling", "customs"] type) ∧
    parcelMachine.transition parcelMachine.initial (.ofType "sort") =
      .ok { parcelMachine.initial with event := some (.ofType "sort") } := by
  have run : parcelMachine.behavior.runFrom parcelMachine.initial [] = .ok parcelMachine.initial := by
    rfl
  obtain ⟨path, n, types, leaf, here, listed, nodup, -, unfinished⟩ :=
    nextEvents_complete parcel_made parcel_distinctKeys run
  have customs : parcelMachine.leaf parcelMachine.initial.value = .ok ["travelling", "customs"] := by
    rfl
  cases customs.symm.trans leaf
  cases here
  obtain ⟨complete, unlisted⟩ := unfinished rfl
  refine ⟨types, listed, nodup, complete, unlisted _ rfl fun type mem named => ?_⟩
  have shown : parcelMachine.nextEvents parcelMachine.initial = .ok ["arrive", "recall"] := by
    rfl
  cases shown.symm.trans listed
  cases named
  exact absurd mem (by decide)

/-- A parcel that was delivered. -/
def delivered : Snapshot where
  value := .text "delivered"
  context := .text "signed"
  event := some (.ofType "arrive")

/-- A delivered parcel lists no events, and is recalled all the same. -/
theorem parcel_recalled : ofDefinition parcel = .ok parcelMachine ∧ parcel.root.DistinctKeys ∧
    parcelMachine.behavior.runFrom parcelMachine.initial [.ofType "arrive"] = .ok delivered ∧
    parcelMachine.nextEvents delivered = .ok [] ∧
    ∃ s', parcelMachine.transition delivered (.ofType "recall") = .ok s' ∧ s'.value ≠ delivered.value := by
  refine ⟨parcel_made, parcel_distinctKeys, rfl, rfl, ⟨_, rfl, ?_⟩⟩
  intro same
  cases same

end StateWalk.Machine
