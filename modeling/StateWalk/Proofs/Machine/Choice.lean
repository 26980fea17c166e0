import StateWalk.Proofs.Machine.ActivePaths
import StateWalk.Proofs.Machine.Targets

/-!
# Choosing a transition

Which transition an event takes is said of the tree alone (`Chooses`): it is the first enabled one of the
deepest active node that has any. What taking it does is said of the transition (`Takes`): its actions make the
new context one after the other, and its target, if it has one, is entered down to a leaf. A step of a machine
does this and nothing else (`transition_chooses`), and the event that led to the state plays no part in it.

The first enabled transition that a step finds is the chosen one (`find?_asked_eq_some_iff`), because active
nodes are asked before their ancestors (`ancestors_split_iff`).
-/

namespace StateWalk.Machine

open Outcome

/-- The transition has no guard, or one that holds. -/
def Transition.enabledIn (t : Transition) (context : Value) (e : Event) : Bool :=
  match t.guard with
  | none => true
  | some guard => (guard context e).toOption.getD false

/-- Neither the guard nor, if they come to run, the actions of the transition fail. -/
structure Transition.Answers (t : Transition) (context : Value) (e : Event) : Prop where
  guard : ∀ guard, t.guard = some guard → ∃ holds, guard context e = .ok holds
  actions : t.enabledIn context e → ∃ context', runActions t.actions context e = .ok context'

/-- The transitions that the node at `source` declares for the type of an event, in their order. -/
def handlers (m : Machine) (source : List String) (e : Event) : List Transition :=
  ((m.root.at? source).bind fun n => e.type.text?.bind (Keyed.find? n.on)).getD []

/-- In the leaf at `path` the event takes the transition `t` of the node at `source`: of those that this node
declares it is the first that is enabled, and no active node below declares an enabled one. -/
structure Chooses (m : Machine) (path : List String) (context : Value) (e : Event) (source : List String)
    (t : Transition) : Prop where
  active : source <+: path
  first : (m.handlers source e).find? (fun u => u.enabledIn context e) = some t
  deepest : ∀ deeper, deeper <+: path → source.length < deeper.length →
    ∀ u ∈ m.handlers deeper e, u.enabledIn context e = false

/-- What taking the transition `t` of the node at `source` leads to. A target means a node, which is named among
the active paths unless it is the root, and the new leaf is this node or where its initial children lead. -/
structure Takes (m : Machine) (s : Snapshot) (source : List String) (t : Transition) (e : Event)
    (s' : Snapshot) : Prop where
  context : t.actions.foldlM (fun context action => action context e) s.context = .ok s'.context
  stays : t.target = none → s'.value = s.value
  enters : ∀ target, t.target = some target → ∃ entered n below, Means m.root source target entered ∧
    m.root.at? entered = some n ∧ n.Enters below ∧ s'.value = valueAt (entered ++ below) ∧
    m.leaf s'.value = .ok (entered ++ below) ∧ (entered ≠ [] → Text.dotted entered ∈ s'.paths)

/-- The transitions that are asked in the leaf at `path`, in this order, each with its node. -/
def asked (m : Machine) (path : List String) (e : Event) : List (List String × Transition) :=
  (ancestors path).flatMap fun source => (m.handlers source e).map fun t => (source, t)

section

variable {d : MachineDefinition} {m : Machine} {s : Snapshot} {path source : List String} {t : Transition}
  {context : Value} {e : Event}

/-! ## What is asked -/

theorem candidatesFor_eq (looked : e.type.checkKey = .ok ()) :
    m.candidatesFor path e = .ok (m.asked path e) := by
  rw [candidatesFor, looked]
  change Except.ok _ = _
  rw [asked]
  simp only [handlers]
  cases e.type.text? with
  | none => simp
  | some type => rfl

theorem mem_asked : (source, t) ∈ m.asked path e ↔ source <+: path ∧ t ∈ m.handlers source e := by
  simp [asked, mem_ancestors]

theorem mem_handlers : t ∈ m.handlers source e ↔ ∃ n type ts, m.root.at? source = some n ∧
    e.type.text? = some type ∧ Keyed.find? n.on type = some ts ∧ t ∈ ts := by
  rw [handlers]
  constructor
  · intro mem
    cases found : (m.root.at? source).bind fun n => e.type.text?.bind (Keyed.find? n.on) with
    | none =>
      rw [found] at mem
      cases mem
    | some ts =>
      rw [found] at mem
      obtain ⟨n, here, listed⟩ := Option.bind_eq_some_iff.1 found
      obtain ⟨type, named, on⟩ := Option.bind_eq_some_iff.1 listed
      exact ⟨n, type, ts, here, named, on, mem⟩
  · rintro ⟨n, type, ts, here, named, on, mem⟩
    rw [here, Option.bind_some, named, Option.bind_some, on]
    exact mem

theorem declares_of_mem_handlers (mem : t ∈ m.handlers source e) : m.Declares source t := by
  obtain ⟨n, type, ts, here, -, on, mem⟩ := mem_handlers.1 mem
  exact ⟨n, type, ts, here, Keyed.mem_of_find? on, mem⟩

/-- The search finds the first enabled transition, if the guards give answers. -/
theorem firstEnabled_eq {ts : List (List String × Transition)} (answers : ∀ t ∈ ts, t.2.Answers context e) :
    firstEnabled context e ts = .ok (ts.find? fun t => t.2.enabledIn context e) := by
  induction ts with
  | nil => rfl
  | cons t ts ih =>
    obtain ⟨source, t⟩ := t
    rw [List.forall_mem_cons] at answers
    rw [firstEnabled, List.find?_cons, Transition.enabledIn]
    cases guarded : t.guard with
    | none => rfl
    | some guard =>
      obtain ⟨holds, asked⟩ := answers.1.guard guard guarded
      simp only [asked]
      cases holds with
      | true => rfl
      | false => exact ih answers.2

/-- **The first enabled transition that is asked is the chosen one.** -/
theorem find?_asked_eq_some_iff :
    (m.asked path e).find? (fun t => t.2.enabledIn context e) = some (source, t) ↔
      m.Chooses path context e source t := by
  have at_node : ∀ here, ((m.handlers here e).map fun t => (here, t)).find?
      (fun t => t.2.enabledIn context e) =
      ((m.handlers here e).find? fun t => t.enabledIn context e).map fun t => (here, t) := by
    intro here
    rw [List.find?_map]
    rfl
  rw [asked, List.find?_flatMap, List.findSome?_eq_some_iff]
  simp only [at_node, Option.map_eq_some_iff, Option.map_eq_none_iff, List.find?_eq_none, Bool.not_eq_true,
    Prod.mk.injEq]
  constructor
  · rintro ⟨before, _, after, split, ⟨_, first, rfl, rfl⟩, deeper⟩
    obtain ⟨active, deepest⟩ := ancestors_split_iff.1 ⟨before, after, split, deeper⟩
    exact ⟨active, first, deepest⟩
  · rintro ⟨active, first, deepest⟩
    obtain ⟨before, after, split, deeper⟩ := ancestors_split_iff.2 ⟨active, deepest⟩
    exact ⟨before, source, after, split, ⟨t, first, rfl, rfl⟩, deeper⟩

/-! ## What is taken -/

/-- A step asks the transitions of the leaf and takes the first that is enabled. -/
theorem transition_eq (denotes : m.Denotes s.value path) (looked : e.type.checkKey = .ok ()) :
    m.transition s e = m.takeFirst s e (m.asked path e) := by
  rw [transition, tried, denotes.leaf]
  change (m.candidatesFor path e >>= fun ts => m.takeFirst s e ts) = _
  rw [candidatesFor_eq looked]
  rfl

/-- A declared transition is taken, if its actions do not fail. -/
theorem take_of_declares (sound : Sound d m) (distinct : m.root.DistinctKeys) (declared : m.Declares source t)
    (acted : runActions t.actions s.context e = .ok context) :
    ∃ s', m.take s source t e = .ok s' ∧ s'.event = some e ∧ m.Takes s source t e s' := by
  rw [take, acted]
  cases aims : t.target with
  | none =>
    refine ⟨⟨s.value, context, some e⟩, rfl, rfl, acted, fun _ => rfl, fun target aims' => ?_⟩
    cases aims.symm.trans aims'
  | some target =>
    obtain ⟨entered, n, resolved, here⟩ := sound.exists_target distinct declared aims
    have enters : m.enter source target = .ok (valueAt (entered ++ n.entry)) := by
      rw [enter, resolved]
      simp only [here]
    refine ⟨⟨valueAt (entered ++ n.entry), context, some e⟩, ?_, rfl, acted, ?_, ?_⟩
    · change (m.enter source target >>= fun value => .ok _) = _
      rw [enters]
      rfl
    · intro none
      cases aims.symm.trans none
    · intro target' aims'
      cases aims.symm.trans aims'
      refine ⟨entered, n, n.entry, (sound.resolve_eq_some_iff distinct).1 resolved, here,
        Node.enters_entry (sound.initialProblems_below here), rfl, (sound.exists_entry here).leaf, ?_⟩
      intro below
      rw [paths_eq rfl, Text.mem_dottedBeginnings]
      exact ⟨entered, List.prefix_append .., below, rfl⟩

/-- **A step takes the first enabled transition of the deepest node that has one.** In a machine that was made
from a definition, in every state that events lead to: unless the type of the event is none that can be looked
up, the state is in a leaf, and if no guard fails that is asked and no action that is run, the event leads on.
If a transition is chosen, it is taken; if none is, the value and the context stay what they are. In any case
the event is noted, and the event before it plays no part. -/
theorem transition_chooses (made : ofDefinition d = .ok m) (distinct : d.root.DistinctKeys)
    {events : List Event} (run : m.behavior.runFrom m.initial events = .ok s) (e : Event) :
    (∀ f, e.type.checkKey = .error f → m.transition s e = .error f) ∧
    (e.type.checkKey = .ok () → ∃ path n, m.leaf s.value = .ok path ∧ m.root.at? path = some n ∧
      n.children = [] ∧
      ((∀ source t, source <+: path → t ∈ m.handlers source e → t.Answers s.context e) →
        ∃ s', m.transition s e = .ok s' ∧ s'.event = some e ∧
          (∀ source t, m.Chooses path s.context e source t → m.Takes s source t e s') ∧
          ((∀ source t, ¬ m.Chooses path s.context e source t) →
            s'.value = s.value ∧ s'.context = s.context))) ∧
    ∀ event, m.transition { s with event } e = m.transition s e := by
  have sound := sound_of_ofDefinition made
  have keys := Node.distinctKeys_of_build distinct sound.built
  obtain ⟨path, denotes⟩ := exists_denotes made distinct run
  refine ⟨fun f refused => ?_, fun looked => ?_, fun event => rfl⟩
  · rw [transition, tried, denotes.leaf]
    change (m.candidatesFor path e >>= fun ts => m.takeFirst s e ts) = _
    rw [candidatesFor, refused]
    rfl
  obtain ⟨n, here, childless⟩ := denotes.childless
  refine ⟨path, n, denotes.leaf, here, childless, fun answers => ?_⟩
  have all : ∀ t ∈ m.asked path e, t.2.Answers s.context e :=
    fun t mem => answers t.1 t.2 (mem_asked.1 mem).1 (mem_asked.1 mem).2
  rw [transition_eq denotes looked, takeFirst, firstEnabled_eq all]
  cases found : (m.asked path e).find? fun t => t.2.enabledIn s.context e with
  | none =>
    refine ⟨_, rfl, rfl, fun source t chosen => ?_, fun _ => ⟨rfl, rfl⟩⟩
    cases found.symm.trans (find?_asked_eq_some_iff.2 chosen)
  | some t =>
    obtain ⟨source, t⟩ := t
    have mem := mem_asked.1 (List.mem_of_find?_eq_some found)
    have enabled : t.enabledIn s.context e = true := by simpa using List.find?_some found
    obtain ⟨context, acted⟩ := (answers source t mem.1 mem.2).actions enabled
    obtain ⟨s', taken, noted, takes⟩ := take_of_declares sound keys (declares_of_mem_handlers mem.2) acted
    refine ⟨s', taken, noted, fun source' t' chosen => ?_, fun none => ?_⟩
    · cases found.symm.trans (find?_asked_eq_some_iff.2 chosen)
      exact takes
    · exact absurd (find?_asked_eq_some_iff.1 found) (none source t)

end

/-! ## A parcel -/

/-- A parcel that is held at the customs stays there. -/
def hold : Transition where
  guard := some fun _ e => .ok (Entries.find? e.payload (.text "held")).isSome

/-- Else it is delivered, and signed for. -/
def deliver : Transition where
  target := some "delivered"
  actions := [fun _ _ => .ok (.text "signed")]

def turnBack : Transition where
  target := some ".travelling"

def parcel : MachineDefinition where
  id := some (some "parcel")
  root := {
    initial := some "travelling"
    on := [("recall", [.transition turnBack])]
    children := [
      ("travelling", {
        initial := some "customs"
        on := [("arrive", [.transition deliver])]
        children := [("customs", { on := [("arrive", [.transition hold])] })] }),
      ("delivered", { kind := some "final" })] }

def parcelMachine : Machine where
  id := "parcel"
  root := ⟨"parcel", "compound", some "travelling", none, [("recall", [turnBack])], [
    ("travelling", ⟨"parcel.travelling", "compound", some "customs", none, [("arrive", [deliver])],
      [("customs", ⟨"parcel.travelling.customs", "atomic", none, none, [("arrive", [hold])], []⟩)]⟩),
    ("delivered", ⟨"parcel.delivered", "final", none, none, [], []⟩)]⟩

theorem parcel_made : ofDefinition parcel = .ok parcelMachine := by
  rfl

theorem parcel_distinctKeys : parcel.root.DistinctKeys := by
  refine .intro (by decide) ?_
  simp only [parcel, List.forall_mem_cons]
  refine ⟨.intro (by decide) ?_, .of_childless rfl, nofun⟩
  simp only [List.forall_mem_cons]
  exact ⟨.of_childless rfl, nofun⟩

/-- The customs do not hold the parcel, so the transition of the node around them is taken. -/
theorem parcel_delivered : ∃ s', parcelMachine.transition parcelMachine.initial (.ofType "arrive") = .ok s' ∧
    parcelMachine.Takes parcelMachine.initial ["travelling"] deliver (.ofType "arrive") s' := by
  have run : parcelMachine.behavior.runFrom parcelMachine.initial [] = .ok parcelMachine.initial := by
    rfl
  have here : parcelMachine.leaf parcelMachine.initial.value = .ok ["travelling", "customs"] := by
    rfl
  obtain ⟨-, steps, -⟩ := transition_chooses parcel_made parcel_distinctKeys run (.ofType "arrive")
  obtain ⟨path, n, leaf, -, -, steps⟩ := steps rfl
  cases here.symm.trans leaf
  have asked : parcelMachine.asked ["travelling", "customs"] (.ofType "arrive") =
      [(["travelling", "customs"], hold), (["travelling"], deliver)] := by
    rfl
  obtain ⟨s', stepped, -, takes, -⟩ := steps fun source t active mem => by
    have listed := mem_asked.2 ⟨active, mem⟩
    rw [asked, List.mem_cons, List.mem_singleton, Prod.mk.injEq, Prod.mk.injEq] at listed
    obtain ⟨-, rfl⟩ | ⟨-, rfl⟩ := listed
    · exact ⟨fun guard given => ⟨false, by cases given; rfl⟩, fun _ => ⟨.null, rfl⟩⟩
    · exact ⟨nofun, fun _ => ⟨.text "signed", rfl⟩⟩
  refine ⟨s', stepped, takes ["travelling"] deliver (find?_asked_eq_some_iff.1 ?_)⟩
  rw [asked]
  rfl

end StateWalk.Machine
