import StateWalk.Proofs.Machine.Construction

/-!
# The active leaf

A machine that was made is always in one leaf of its tree. Its checks see to it that every node has a way in
(`exists_entry`) and that every declared target is a node (`exists_target`); entering ends in a leaf, and the
value of a leaf denotes that leaf again (`leaf_valueAt`). So a step from a leaf leads to a leaf, and what can
fail in it is a function of the caller, or that the type of the event cannot be looked up at all
(`transition_cases`).
-/

namespace StateWalk.Machine

open Outcome

/-- The guard or an action of the transition fails with this fault, for some context and event. -/
def Transition.FailsWith (t : Transition) (f : Fault) : Prop :=
  (∃ guard context e, t.guard = some guard ∧ guard context e = .error f) ∨
    ∃ action ∈ t.actions, ∃ context e, action context e = .error f

/-- The node at `source` declares the transition. -/
def Declares (m : Machine) (source : List String) (t : Transition) : Prop :=
  ∃ n type ts, m.root.at? source = some n ∧ (type, ts) ∈ n.on ∧ t ∈ ts

/-- The state value is that of the leaf at `path`. -/
structure Denotes (m : Machine) (value : Value) (path : List String) : Prop where
  eq : value = valueAt path
  childless : ∃ n, m.root.at? path = some n ∧ n.children = []

/-! ## Checked trees -/

section

variable {root n : Node} {path : List String}

/-- What is right with a tree is right with each of its nodes. -/
theorem no_problems_at (checked : problems root = []) (mem : (path, n) ∈ root.nodes []) :
    initialProblems n = [] ∧ targetProblems root path n = [] := by
  have all := (List.append_eq_nil_iff.1 checked).2
  rw [List.flatMap_eq_nil_iff] at all
  exact List.append_eq_nil_iff.1 (all _ mem)

/-- A target that was not complained about resolves. -/
theorem exists_resolve (unproblematic : targetProblems root path n = []) {type : String}
    {ts : List Transition} {t : Transition} {target : String} (on : (type, ts) ∈ n.on) (mem : t ∈ ts)
    (aims : t.target = some target) : ∃ found, resolve root path target = some found := by
  rw [targetProblems, List.flatMap_eq_nil_iff] at unproblematic
  have each := List.filterMap_eq_nil_iff.1 (unproblematic _ on) t mem
  rw [aims, Option.bind_some] at each
  rw [← Option.isSome_iff_exists]
  by_contra unresolved
  rw [if_neg unresolved] at each
  cases each

/-- What a target resolves to is the address of a node. -/
theorem exists_node_of_resolve (distinct : root.DistinctKeys) {source found : List String} {target : String}
    (h : resolve root source target = some found) : ∃ n, root.at? found = some n := by
  have descends : ∀ {path keys}, descend root path keys = some found → ∃ n, root.at? found = some n := by
    intro path keys h
    rw [descend] at h
    split at h
    · cases h
      exact Option.isSome_iff_exists.1 ‹_›
    · cases h
  rw [resolve] at h
  split at h
  · -- an id is registered with the address of its node
    obtain ⟨n, here, -⟩ := (Node.mem_registrations_iff distinct).1 (Keyed.mem_of_find? h)
    exact ⟨n, here⟩
  · exact descends h
  · exact descends h

end

/-! ## State values -/

theorem child_text {n c : Node} {key : String} (found : Keyed.find? n.children key = some c) :
    child n (.text key) = .ok (key, c) := by
  have named : (Value.text key).text? = some key := rfl
  rw [child, named, Option.bind_some, found]
  rfl

/-- The value of a node denotes its path. -/
theorem pathIn_valueAt {n found : Node} {path : List String} (h : n.at? path = some found) :
    pathIn n (valueAt path) = .ok path := by
  induction path generalizing n with
  | nil => rfl
  | cons key path ih =>
    rw [Node.at?_cons, Option.bind_eq_some_iff] at h
    obtain ⟨c, listed, h⟩ := h
    -- the last key is a state value by itself, any other one a mapping with one entry
    cases path with
    | nil =>
      rw [valueAt, pathIn, child_text listed]
      rfl
    | cons next path =>
      rw [valueAt_cons_cons, pathIn, pathInFirst, child_text listed]
      change (pathIn c (valueAt (next :: path)) >>= fun below => .ok (key :: below)) = _
      rw [ih h]
      rfl

theorem Denotes.leaf {m : Machine} {value : Value} {path : List String} (h : m.Denotes value path) :
    m.leaf value = .ok path := by
  obtain ⟨n, found, -⟩ := h.childless
  rw [h.eq]
  exact pathIn_valueAt found

/-! ## Steps -/

section

variable {d : MachineDefinition} {m : Machine}

/-- What stands below a node of the tree has an initial child, or no children. -/
theorem Sound.initialProblems_below (sound : Sound d m) {path below : List String} {n c : Node}
    (found : m.root.at? path = some n) (h : n.at? below = some c) : initialProblems c = [] := by
  have found' : m.root.at? (path ++ below) = some c := by
    rw [Node.at?_append, found]
    exact h
  exact (no_problems_at sound.checked (Node.mem_nodes_of_at? [] found')).1

/-- From every node on, following the initial children ends in a leaf. -/
theorem Sound.exists_entry (sound : Sound d m) {path : List String} {n : Node}
    (found : m.root.at? path = some n) : m.Denotes (valueAt (path ++ n.entry)) (path ++ n.entry) := by
  obtain ⟨leaf, entered, childless⟩ := Node.exists_leaf (sound.initialProblems_below found)
  refine ⟨rfl, leaf, ?_, childless⟩
  rw [Node.at?_append, found]
  exact entered

/-- Every declared target is a node. -/
theorem Sound.exists_target (sound : Sound d m) (distinct : m.root.DistinctKeys) {source : List String}
    {t : Transition} {target : String} (declared : m.Declares source t) (aims : t.target = some target) :
    ∃ path n, resolve m.root source target = some path ∧ m.root.at? path = some n := by
  obtain ⟨n, type, ts, found, on, mem⟩ := declared
  have unproblematic := (no_problems_at sound.checked (Node.mem_nodes_of_at? [] found)).2
  obtain ⟨path, resolved⟩ := exists_resolve unproblematic on mem aims
  obtain ⟨n, found⟩ := exists_node_of_resolve distinct resolved
  exact ⟨path, n, resolved, found⟩

theorem exists_enter (sound : Sound d m) (distinct : m.root.DistinctKeys) {source : List String}
    {t : Transition} {target : String} (declared : m.Declares source t) (aims : t.target = some target) :
    ∃ value path, m.enter source target = .ok value ∧ m.Denotes value path := by
  obtain ⟨path, n, resolved, found⟩ := sound.exists_target distinct declared aims
  refine ⟨_, _, ?_, sound.exists_entry found⟩
  rw [enter, resolved]
  simp only [found]

/-- Actions give a context unless one of them fails. -/
theorem runActions_cases (actions : List Action) (context : Value) (e : Event) :
    (∃ context', runActions actions context e = .ok context') ∨
      ∃ f, runActions actions context e = .error f ∧ ∃ action ∈ actions, ∃ context e, action context e = .error f := by
  induction actions generalizing context with
  | nil => exact .inl ⟨context, rfl⟩
  | cons action actions ih =>
    have run : runActions (action :: actions) context e =
        action context e >>= fun context => runActions actions context e := List.foldlM_cons ..
    rw [run]
    cases acted : action context e with
    | error f => exact .inr ⟨f, rfl, action, List.mem_cons_self, context, e, acted⟩
    | ok context =>
      obtain done | ⟨f, failed, other, mem, fails⟩ := ih context
      · exact .inl done
      · exact .inr ⟨f, failed, other, List.mem_cons_of_mem _ mem, fails⟩

/-- A search for an enabled transition finds one of those that are tried, or none, unless a guard fails. -/
theorem firstEnabled_cases (context : Value) (e : Event) (ts : List (List String × Transition)) :
    (∃ found, firstEnabled context e ts = .ok found ∧ ∀ t ∈ found, t ∈ ts) ∨
      ∃ f, firstEnabled context e ts = .error f ∧ ∃ t ∈ ts, t.2.FailsWith f := by
  induction ts with
  | nil => exact .inl ⟨none, rfl, nofun⟩
  | cons t ts ih =>
    obtain ⟨source, t⟩ := t
    rw [firstEnabled]
    cases guarded : t.guard with
    | none => exact .inl ⟨_, rfl, by simp⟩
    | some guard =>
      simp only
      cases asked : guard context e with
      | error f =>
        exact .inr ⟨f, rfl, (source, t), List.mem_cons_self, .inl ⟨guard, context, e, guarded, asked⟩⟩
      | ok holds =>
        cases holds with
        | true => exact .inl ⟨_, rfl, by simp⟩
        | false =>
          obtain ⟨found, searched, mem⟩ | ⟨f, failed, other, mem, fails⟩ := ih
          · exact .inl ⟨found, searched, fun t h => List.mem_cons_of_mem _ (mem t h)⟩
          · exact .inr ⟨f, failed, other, List.mem_cons_of_mem _ mem, fails⟩

theorem declares_of_mem_candidates {path : List String} {type : String} {candidate : List String × Transition}
    (mem : candidate ∈ m.candidates path type) : m.Declares candidate.1 candidate.2 := by
  obtain ⟨source, -, mem⟩ := List.mem_flatMap.1 mem
  obtain ⟨t, listed, rfl⟩ := List.mem_map.1 mem
  cases found : (m.root.at? source).bind fun n => Keyed.find? n.on type with
  | none =>
    rw [found] at listed
    cases listed
  | some ts =>
    rw [found] at listed
    obtain ⟨n, here, on⟩ := Option.bind_eq_some_iff.1 found
    exact ⟨n, type, ts, here, Keyed.mem_of_find? on, listed⟩

/-- Taking a declared transition leads to a leaf again, unless one of its actions fails. -/
theorem take_cases (sound : Sound d m) (distinct : m.root.DistinctKeys) {s : Snapshot} {path : List String}
    (denotes : m.Denotes s.value path) {source : List String} {t : Transition} (declared : m.Declares source t)
    (e : Event) :
    (∃ s' path', m.take s source t e = .ok s' ∧ m.Denotes s'.value path') ∨
      ∃ f, m.take s source t e = .error f ∧ t.FailsWith f := by
  rw [take]
  obtain ⟨context, acted⟩ | ⟨f, failed, fails⟩ := runActions_cases t.actions s.context e
  · rw [acted]
    cases aims : t.target with
    | none => exact .inl ⟨_, path, rfl, denotes⟩
    | some target =>
      obtain ⟨value, path', entered, denotes'⟩ := exists_enter sound distinct declared aims
      refine .inl ⟨⟨value, context, some e⟩, path', ?_, denotes'⟩
      change (m.enter source target >>= fun value => .ok _) = _
      rw [entered]
      rfl
  · rw [failed]
    exact .inr ⟨f, rfl, .inr fails⟩

/-- **A step from a leaf leads to a leaf**, unless a function of the caller fails or the type of the event is
none that can be looked up. -/
theorem transition_cases (sound : Sound d m) (distinct : m.root.DistinctKeys) {s : Snapshot}
    {path : List String} (denotes : m.Denotes s.value path) (e : Event) :
    (∃ s' path', m.transition s e = .ok s' ∧ m.Denotes s'.value path') ∨
      ∃ f, m.transition s e = .error f ∧
        (e.type.checkKey = .error f ∨ ∃ source t, m.Declares source t ∧ t.FailsWith f) := by
  have step : m.transition s e = m.candidatesFor path e >>= fun ts => m.takeFirst s e ts := by
    rw [transition, tried, denotes.leaf]
    rfl
  rw [step, candidatesFor]
  cases looked : e.type.checkKey with
  | error f => exact .inr ⟨f, rfl, .inl rfl⟩
  | ok _ =>
    change (∃ s' path', m.takeFirst s e ((e.type.text?.map (m.candidates path)).getD []) = _ ∧ _) ∨
      ∃ f, m.takeFirst s e ((e.type.text?.map (m.candidates path)).getD []) = _ ∧ _
    have declared : ∀ t ∈ (e.type.text?.map (m.candidates path)).getD [], m.Declares t.1 t.2 := by
      cases e.type.text? with
      | none => nofun
      | some type => exact fun t => declares_of_mem_candidates
    generalize (e.type.text?.map (m.candidates path)).getD [] = ts at declared ⊢
    rw [takeFirst]
    -- a step is a search for an enabled transition and then its taking, and either may fail
    obtain ⟨found, searched, mem⟩ | ⟨f, failed, t, mem, fails⟩ := firstEnabled_cases s.context e ts
    · rw [searched]
      cases found with
      | none => exact .inl ⟨_, path, rfl, denotes⟩
      | some t =>
        obtain ⟨source, t⟩ := t
        have here := declared _ (mem _ rfl)
        obtain taken | ⟨f, failed, fails⟩ := take_cases sound distinct denotes here e
        · exact .inl taken
        · exact .inr ⟨f, failed, .inr ⟨source, t, here, fails⟩⟩
    · rw [failed]
      exact .inr ⟨f, rfl, .inr ⟨_, _, declared t mem, fails⟩⟩

/-! ## Runs -/

/-- A run from a leaf that returns has led to a leaf. -/
theorem denotes_of_runFrom (sound : Sound d m) (distinct : m.root.DistinctKeys) {events : List Event}
    {s s' : Snapshot} {path : List String} (denotes : m.Denotes s.value path)
    (run : m.behavior.runFrom s events = .ok s') : ∃ path', m.Denotes s'.value path' := by
  induction events generalizing s path with
  | nil =>
    cases run
    exact ⟨path, denotes⟩
  | cons e events ih =>
    rw [Behavior.runFrom, bind_eq_ok_iff] at run
    obtain ⟨next, stepped, run⟩ := run
    obtain ⟨s₁, path₁, stepped', denotes₁⟩ | ⟨f, failed, -⟩ := transition_cases sound distinct denotes e
    · cases stepped.symm.trans stepped'
      exact ih denotes₁ run
    · cases stepped.symm.trans failed

/-- Every state that a machine comes to is in a leaf. -/
theorem exists_denotes (made : ofDefinition d = .ok m) (distinct : d.root.DistinctKeys) {events : List Event}
    {s : Snapshot} (run : m.behavior.runFrom m.initial events = .ok s) : ∃ path, m.Denotes s.value path := by
  have sound := sound_of_ofDefinition made
  have keys := Node.distinctKeys_of_build distinct sound.built
  have top : m.root.at? [] = some m.root := rfl
  exact denotes_of_runFrom sound keys (sound.exists_entry top) run

/-- A run from a leaf returns if no function of the caller fails, for events whose types can be looked up. -/
theorem exists_runFrom (sound : Sound d m) (distinct : m.root.DistinctKeys)
    (answers : ∀ source t f, m.Declares source t → ¬ t.FailsWith f) {events : List Event}
    (looked : ∀ e ∈ events, e.type.checkKey = .ok ()) {s : Snapshot} {path : List String}
    (denotes : m.Denotes s.value path) : ∃ s', m.behavior.runFrom s events = .ok s' := by
  induction events generalizing s path with
  | nil => exact ⟨s, rfl⟩
  | cons e events ih =>
    rw [List.forall_mem_cons] at looked
    obtain ⟨next, path', stepped, denotes'⟩ | ⟨f, -, fails⟩ := transition_cases sound distinct denotes e
    · obtain ⟨s', run⟩ := ih looked.2 denotes'
      exact ⟨s', bind_eq_ok_iff.2 ⟨next, stepped, run⟩⟩
    · obtain refused | ⟨source, t, declared, fails⟩ := fails
      · cases looked.1.symm.trans refused
      · exact absurd fails (answers source t f declared)

theorem Denotes.nextEvents {s : Snapshot} {path : List String} (h : m.Denotes s.value path) :
    ∃ types, m.nextEvents s = .ok types ∧ m.events s = .ok (types.map Event.ofType) := by
  obtain ⟨types, listed⟩ : ∃ types, m.nextEvents s = .ok types := by
    rw [Machine.nextEvents, h.leaf]
    simp only [bind, Except.bind]
    split <;> exact ⟨_, rfl⟩
  refine ⟨types, listed, ?_⟩
  rw [events, listed]
  rfl

/-- A snapshot in a leaf can be described if its context has a key. -/
theorem Denotes.describe {s : Snapshot} {path : List String} (h : m.Denotes s.value path) {f : Fault}
    (failed : m.describe s = .error f) : s.context.key = .error f := by
  rw [Machine.describe, h.leaf] at failed
  generalize s.context = context at failed ⊢
  simp only [bind, Except.bind] at failed
  split at failed
  · cases failed
  · cases keyed : context.key with
    | error f' =>
      rw [keyed] at failed
      exact failed
    | ok key =>
      rw [keyed] at failed
      cases failed

/-- **Every state that a machine reaches denotes a leaf.** In a machine that was made from a definition, every
node is what its state value denotes, following the initial children from any node ends in a leaf, and every
declared target is a node. So whatever events are sent to it, if the run returns, its state value is that of a
leaf and denotes this leaf; asking it for its events cannot fail, describing it only as its context has no
key, and one more step only as the type of the event cannot be looked up or a guard or an action fails. If
guards and actions never do, the run returns. -/
theorem reachable_denotes_leaf (made : ofDefinition d = .ok m) (distinct : d.root.DistinctKeys) :
    (∀ path n, (path, n) ∈ m.root.nodes [] → m.leaf (valueAt path) = .ok path) ∧
    (∀ path n, (path, n) ∈ m.root.nodes [] →
      ∃ leaf, (path ++ n.entry, leaf) ∈ m.root.nodes [] ∧ leaf.children = []) ∧
    (∀ source t target, m.Declares source t → t.target = some target →
      ∃ path n, resolve m.root source target = some path ∧ (path, n) ∈ m.root.nodes []) ∧
    (∀ events s, m.behavior.runFrom m.initial events = .ok s →
      (∃ path n, (path, n) ∈ m.root.nodes [] ∧ n.children = [] ∧ s.value = valueAt path ∧
        m.leaf s.value = .ok path) ∧
      (∃ types, m.nextEvents s = .ok types ∧ m.events s = .ok (types.map Event.ofType)) ∧
      (∀ f, m.describe s = .error f → s.context.key = .error f) ∧
      ∀ e f, m.transition s e = .error f →
        e.type.checkKey = .error f ∨ ∃ source t, m.Declares source t ∧ t.FailsWith f) ∧
    ((∀ source t f, m.Declares source t → ¬ t.FailsWith f) → ∀ events : List Event,
      (∀ e ∈ events, e.type.checkKey = .ok ()) → ∃ s, m.behavior.runFrom m.initial events = .ok s) := by
  have sound := sound_of_ofDefinition made
  have keys := Node.distinctKeys_of_build distinct sound.built
  have mem_iff : ∀ {path n}, (path, n) ∈ m.root.nodes [] ↔ m.root.at? path = some n := Node.mem_nodes_iff keys
  have top : m.root.at? [] = some m.root := rfl
  have initial : m.Denotes m.initial.value m.root.entry := sound.exists_entry top
  refine ⟨?_, ?_, ?_, ?_, ?_⟩
  · intro path n mem
    exact pathIn_valueAt (mem_iff.1 mem)
  · intro path n mem
    obtain ⟨leaf, found, childless⟩ := (sound.exists_entry (mem_iff.1 mem)).childless
    exact ⟨leaf, mem_iff.2 found, childless⟩
  · intro source t target declared aims
    obtain ⟨path, n, resolved, found⟩ := sound.exists_target keys declared aims
    exact ⟨path, n, resolved, mem_iff.2 found⟩
  · intro events s run
    obtain ⟨path, denotes⟩ := denotes_of_runFrom sound keys initial run
    obtain ⟨n, found, childless⟩ := denotes.childless
    refine ⟨⟨path, n, mem_iff.2 found, childless, denotes.eq, denotes.leaf⟩, denotes.nextEvents,
      fun f => denotes.describe, ?_⟩
    intro e f failed
    obtain ⟨s', path', stepped, -⟩ | ⟨f', failed', fails⟩ := transition_cases sound keys denotes e
    · cases failed.symm.trans stepped
    · cases failed.symm.trans failed'
      exact fails
  · intro answers events looked
    exact exists_runFrom sound keys answers looked initial

end

/-! ## A door -/

/-- A closed door may be locked. While it is, it stays so when somebody tries to open it. -/
def closedDoor : Definition where
  initial := some "unlocked"
  on := [("lock", [.transition { target := some ".locked" }]), ("open", [.transition { target := some "opened" }])]
  children := [("unlocked", {}), ("locked", { on := [("open", [.transition {}])] })]

def openDoor : Definition where
  id := some "wide"
  on := [("close", [.transition { target := some "#door.closed" }])]

def door : MachineDefinition where
  id := some (some "door")
  root := {
    initial := some "closed"
    on := [("force", [.transition { target := some "#wide" }])]
    children := [("closed", closedDoor), ("opened", openDoor)] }

theorem door_distinctKeys : door.root.DistinctKeys := by
  have closed : closedDoor.DistinctKeys := .intro (by decide) <| by
    simp only [closedDoor, List.forall_mem_cons]
    exact ⟨.of_childless rfl, .of_childless rfl, nofun⟩
  refine .intro (by decide) ?_
  simp only [door, List.forall_mem_cons]
  exact ⟨closed, .of_childless rfl, nofun⟩

/-- The door, once it was locked. -/
def lockedDoor : Snapshot where
  value := .mapping [(.text "closed", .text "locked")]
  event := some (.ofType "lock")

/-- A door that was locked and is tried is closed and locked. -/
theorem lockedDoor_denotes_leaf : ∃ m s n, ofDefinition door = .ok m ∧
    m.behavior.runFrom m.initial [.ofType "lock", .ofType "open"] = .ok s ∧
    s.value = .mapping [(.text "closed", .text "locked")] ∧ m.leaf s.value = .ok ["closed", "locked"] ∧
    (["closed", "locked"], n) ∈ m.root.nodes [] ∧ n.children = [] := by
  have locked : (ofDefinition door >>= fun m => m.transition m.initial (.ofType "lock")) = .ok lockedDoor := by
    rfl
  obtain ⟨m, made, locked⟩ := bind_eq_ok_iff.1 locked
  have tried : (ofDefinition door >>= fun m => m.transition lockedDoor (.ofType "open")) =
      .ok { lockedDoor with event := some (.ofType "open") } := by
    rfl
  rw [made] at tried
  have run : m.behavior.runFrom m.initial [.ofType "lock", .ofType "open"] =
      .ok { lockedDoor with event := some (.ofType "open") } := by
    rw [Behavior.runFrom, bind_eq_ok_iff]
    exact ⟨lockedDoor, locked, bind_eq_ok_iff.2 ⟨_, tried, rfl⟩⟩
  obtain ⟨-, -, -, reached, -⟩ := reachable_denotes_leaf made door_distinctKeys
  obtain ⟨⟨path, n, mem, childless, -, denotes⟩, -⟩ := reached _ _ run
  have here : (ofDefinition door >>= fun m => m.leaf lockedDoor.value) = .ok ["closed", "locked"] := by
    rfl
  rw [made] at here
  cases denotes.symm.trans here
  exact ⟨m, _, n, made, run, rfl, denotes, mem, childless⟩

end StateWalk.Machine
