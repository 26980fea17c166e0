import StateWalk.Proofs.Machine.Active
import StateWalk.Proofs.Search.FiniteNodes

/-!
# Searching a machine without actions

Where no transition has actions, a machine keeps the context that it began with, and whatever it reaches is
in a leaf of its tree (`atLeaf_of_admitted`). The key of a snapshot says nothing of the event that led to it.
So there are no more nodes to search than leaves (`endsAmong_leafKeys`), whatever events are tried and
whatever the guards make of them.

Guards are asked and events are listed on the way, and nothing of this can fail but what the caller brings.
One thing is left: the context must have a key, because snapshots are known by theirs. A validated record
whose dump fails has none.
-/

namespace StateWalk.Machine

open Outcome Search

/-- The nodes without children, with their addresses. -/
def leaves (m : Machine) : List (List String × Node) :=
  (m.root.nodes []).filter fun entry => entry.2.children.isEmpty

/-- The snapshot is in a leaf, and its context is the one that the machine began with. -/
structure AtLeaf (m : Machine) (s : Snapshot) : Prop where
  leaf : ∃ path, m.Denotes s.value path
  context : s.context = m.context

/-- Snapshots are known by their own keys, and functions that the options have answer wherever they are
asked; an event source lists events whose types are texts. -/
structure Answers (o : Search.Options Snapshot String) : Prop where
  stateKey : ∀ s e, o.stateKey s e = s.key
  events : ∀ source, o.events = some source →
    ∀ s, ∃ es, (source s).mapM Event.ofValue = .ok es ∧ ∀ e ∈ es, e.type.text?.isSome
  filter : ∀ filter, o.filter = some filter → ∀ s, ∃ passes, filter s = .ok passes
  describe : ∀ describe, o.describe = some describe → ∀ s, ∃ text, describe s = .ok text

/-! ## The context is kept -/

section

variable {m : Machine} {s s' : Snapshot} {e : Event}

theorem declares_of_tried {value : Value} {ts : List (List String × Transition)}
    (h : m.tried value e = .ok ts) : ∀ t ∈ ts, m.Declares t.1 t.2 := by
  obtain ⟨path, -, looked⟩ := bind_eq_ok_iff.1 h
  obtain ⟨_, -, eq⟩ := bind_eq_ok_iff.1 looked
  cases eq
  cases e.type.text? with
  | none => nofun
  | some type => exact fun t => declares_of_mem_candidates

/-- Without actions a transition leaves the context as it is. -/
theorem context_of_take {source : List String} {t : Transition} (plain : t.actions = [])
    (h : m.take s source t e = .ok s') : s'.context = s.context := by
  obtain ⟨context, acted, h⟩ := bind_eq_ok_iff.1 h
  rw [plain] at acted
  cases acted
  cases aims : t.target with
  | none =>
    rw [aims] at h
    cases h
    rfl
  | some target =>
    rw [aims] at h
    obtain ⟨value, -, eq⟩ := bind_eq_ok_iff.1 h
    cases eq
    rfl

theorem context_of_transition (plain : ∀ source t, m.Declares source t → t.actions = [])
    (h : m.transition s e = .ok s') : s'.context = s.context := by
  obtain ⟨ts, tried, h⟩ := bind_eq_ok_iff.1 h
  obtain ⟨found, searched, h⟩ := bind_eq_ok_iff.1 h
  cases found with
  | none =>
    cases h
    rfl
  | some t =>
    obtain ⟨found, searched', mem⟩ | ⟨f, failed, -⟩ := firstEnabled_cases s.context e ts
    · cases searched.symm.trans searched'
      exact context_of_take (plain _ _ (declares_of_tried tried t (mem t rfl))) h
    · cases searched.symm.trans failed

end

/-! ## Keys of snapshots in leaves -/

section

variable {m : Machine} {s : Snapshot}

theorem hasKey_valueAt (path : List String) : (valueAt path).hasKey = true := by
  induction path with
  | nil => rfl
  | cons key path ih =>
    cases path with
    | nil => rfl
    | cons next path =>
      rw [valueAt_cons_cons, Value.hasKey_mapping, List.all_cons, ih]
      rfl

/-- The key of a snapshot that has this state value and the context that the machine began with. -/
def keyAt (m : Machine) (value : Value) : String := (Value.snapshot value m.context .null).canonicalText

theorem key_snapshot {path : List String} (value : s.value = valueAt path) (context : s.context = m.context)
    (keyed : m.context.hasKey = true) : s.key = .ok (m.keyAt s.value) := by
  have whole : s.toValue.hasKey = true := by
    rw [Snapshot.toValue, Value.hasKey_snapshot, value, hasKey_valueAt, context, keyed]
    rfl
  rw [Snapshot.key, Value.key_of_hasKey whole, keyAt, ← context]
  rfl

theorem AtLeaf.exists_leaf (h : AtLeaf m s) : ∃ leaf ∈ m.leaves, s.value = valueAt leaf.1 := by
  obtain ⟨path, denotes⟩ := h.leaf
  obtain ⟨n, found, childless⟩ := denotes.childless
  refine ⟨(path, n), List.mem_filter.2 ⟨Node.mem_nodes_of_at? [] found, ?_⟩, denotes.eq⟩
  rw [childless]
  rfl

theorem AtLeaf.key (h : AtLeaf m s) (keyed : m.context.hasKey = true) : s.key = .ok (m.keyAt s.value) := by
  obtain ⟨path, denotes⟩ := h.leaf
  exact key_snapshot denotes.eq h.context keyed

end

/-! ## What is reached -/

section

variable {d : MachineDefinition} {m : Machine} {o : Search.Options Snapshot String} {s s' : Snapshot}

theorem atLeaf_initial (sound : Sound d m) : AtLeaf m m.initial := by
  have top : m.root.at? [] = some m.root := rfl
  exact ⟨⟨m.root.entry, sound.exists_entry top⟩, rfl⟩

theorem AtLeaf.next (sound : Sound d m) (distinct : m.root.DistinctKeys)
    (plain : ∀ source t, m.Declares source t → t.actions = []) (h : AtLeaf m s) {e : Event}
    (stepped : m.transition s e = .ok s') : AtLeaf m s' := by
  obtain ⟨path, denotes⟩ := h.leaf
  refine ⟨?_, (context_of_transition plain stepped).trans h.context⟩
  obtain ⟨next, path', stepped', denotes'⟩ | ⟨f, failed, -⟩ := transition_cases sound distinct denotes e
  · cases stepped.symm.trans stepped'
    exact ⟨path', denotes'⟩
  · cases stepped.symm.trans failed

/-- Every state that a search comes to is in a leaf and has the first context. -/
theorem atLeaf_of_admitted (sound : Sound d m) (distinct : m.root.DistinctKeys)
    (plain : ∀ source t, m.Declares source t → t.actions = []) {steps : List (Step Snapshot)}
    (h : Admitted m.behavior o steps s) : AtLeaf m s := by
  induction h with
  | initial => exact atLeaf_initial sound
  | send _ sent ih => exact ih.next sound distinct plain sent.leads

/-- There are no more nodes than leaves. -/
theorem endsAmong_leafKeys (sound : Sound d m) (distinct : m.root.DistinctKeys)
    (plain : ∀ source t, m.Declares source t → t.actions = []) (keyed : m.context.hasKey = true)
    (asks : Answers o) :
    EndsAmong m.behavior o (m.leaves.map fun leaf => m.keyAt (valueAt leaf.1)).toFinset := by
  intro steps s k admitted ends
  have here := atLeaf_of_admitted sound distinct plain admitted
  obtain ⟨leaf, mem, value⟩ := here.exists_leaf
  rw [endKey, asks.stateKey, here.key keyed, value] at ends
  cases ends
  exact List.mem_toFinset.2 (List.mem_map_of_mem mem)

/-! ## What is asked -/

theorem checkKey_of_isSome {v : Value} (h : v.text?.isSome) : v.checkKey = .ok () := by
  obtain ⟨text, rfl | ⟨_, rfl⟩⟩ := Value.eq_text_of_isSome h <;> rfl

/-- The events to try are listed, by the source that the options have or by the machine itself. -/
theorem AtLeaf.exists_eventsAt (h : AtLeaf m s) (asks : Answers o) :
    ∃ es, eventsAt m.behavior o s = .ok es ∧ ∀ e ∈ es, e.type.text?.isSome := by
  cases given : o.events with
  | some source =>
    obtain ⟨es, listed, texts⟩ := asks.events source given s
    exact ⟨es, by rw [eventsAt, given, Option.getD_some, listed], texts⟩
  | none =>
    obtain ⟨path, denotes⟩ := h.leaf
    obtain ⟨types, -, listed⟩ := denotes.nextEvents
    refine ⟨types.map Event.ofType, ?_, ?_⟩
    · rw [eventsAt, given, Option.getD_none]
      change (Reading.after (m.events s) fun es => .ofList (es.map Event.toValue)).mapM Event.ofValue = _
      rw [listed, Reading.after, Reading.mapM_ofList, mapM_ofValue_toValue]
    · intro e mem
      obtain ⟨type, -, rfl⟩ := List.mem_map.1 mem
      rfl

theorem isSome_text?_of_tries (h : AtLeaf m s) (asks : Answers o) {e : Event}
    (tries : Tries m.behavior o s e) : e.type.text?.isSome := by
  obtain ⟨es, tried, mem⟩ := tries
  obtain ⟨es', tried', texts⟩ := h.exists_eventsAt asks
  cases tried.symm.trans tried'
  exact texts e mem

theorem AtLeaf.exists_next (sound : Sound d m) (distinct : m.root.DistinctKeys)
    (answers : ∀ source t f, m.Declares source t → ¬ t.FailsWith f) (h : AtLeaf m s) {e : Event}
    (text : e.type.text?.isSome) : ∃ next, m.transition s e = .ok next := by
  obtain ⟨path, denotes⟩ := h.leaf
  obtain ⟨next, -, stepped, -⟩ | ⟨f, -, refused | ⟨source, t, declared, fails⟩⟩ :=
    transition_cases sound distinct denotes e
  · exact ⟨next, stepped⟩
  · cases (checkKey_of_isSome text).symm.trans refused
  · exact absurd fails (answers source t f declared)

/-- A snapshot in a leaf can be described. -/
theorem AtLeaf.exists_description (h : AtLeaf m s) (keyed : m.context.hasKey = true)
    (describes : ∀ describe, o.describe = some describe → ∀ s, ∃ text, describe s = .ok text) :
    ∃ text, describer m.behavior o s = .ok text := by
  cases given : o.describe with
  | some describe =>
    obtain ⟨text, described⟩ := describes describe given s
    exact ⟨text, by simp only [describer, given, described]⟩
  | none =>
    have own : describer m.behavior o s = m.describe s := by
      rw [describer, given]
      rfl
    obtain ⟨path, denotes⟩ := h.leaf
    rw [own]
    cases described : m.describe s with
    | ok text => exact ⟨text, rfl⟩
    | error f =>
      have failed := denotes.describe described
      rw [h.context, Value.key_of_hasKey keyed] at failed
      cases failed

/-- Nothing fails that a search asks. -/
theorem responds (sound : Sound d m) (distinct : m.root.DistinctKeys)
    (plain : ∀ source t, m.Declares source t → t.actions = [])
    (answers : ∀ source t f, m.Declares source t → ¬ t.FailsWith f) (keyed : m.context.hasKey = true)
    (asks : Answers o) : Responds m.behavior o := by
  have here : ∀ {steps s}, Admitted m.behavior o steps s → AtLeaf m s :=
    fun admitted => atLeaf_of_admitted sound distinct plain admitted
  constructor
  · exact ⟨_, (asks.stateKey _ _).trans ((atLeaf_initial sound).key keyed)⟩
  · intro steps s admitted
    obtain ⟨es, listed, -⟩ := (here admitted).exists_eventsAt asks
    exact ⟨es, listed⟩
  · intro steps s e admitted tries
    have text := isSome_text?_of_tries (here admitted) asks tries
    exact (here admitted).exists_next sound distinct answers text
  · intro steps s e t _ _ _
    rw [Options.admits]
    cases given : o.filter with
    | none => exact ⟨true, rfl⟩
    | some filter => exact asks.filter filter given t
  · intro steps s e t admitted sent
    have next := (here admitted).next sound distinct plain sent.leads
    exact ⟨_, (asks.stateKey _ _).trans (next.key keyed)⟩
  · exact fun admitted => (here admitted).exists_description keyed asks.describe

theorem textTypes (sound : Sound d m) (distinct : m.root.DistinctKeys)
    (plain : ∀ source t, m.Declares source t → t.actions = []) (asks : Answers o) :
    TextTypes m.behavior o :=
  fun admitted tries => isSome_text?_of_tries (atLeaf_of_admitted sound distinct plain admitted) asks tries

/-! ## Plans -/

/-- The plans of the breadth-first search are in leaves, each in another one. -/
theorem nodup_values_of_shortestPlans (sound : Sound d m) (distinct : m.root.DistinctKeys)
    (plain : ∀ source t, m.Declares source t → t.actions = []) (keyed : m.context.hasKey = true)
    (asks : Answers o) {plans : List (Plan Snapshot)} (h : shortestPlans m.behavior o = .ok plans) :
    (plans.map fun plan => plan.state.value).Nodup ∧ ∀ plan ∈ plans, AtLeaf m plan.state := by
  obtain ⟨routes, found, made⟩ := shortestPlans_eq_ok_iff.1 h
  have table := (progress_of_shortestRoutes found).table
  rw [List.append_nil] at table
  have arrives : List.Forall₂ (fun k (plan : Plan Snapshot) => AtLeaf m plan.state ∧
      k = m.keyAt plan.state.value) (routes.map Route.key) plans := by
    refine forall₂_map_left made fun r hr plan planned => ?_
    obtain ⟨_, _, -, state, state', -, -⟩ := Route.paths_of_plan planned
    have held := table.sound r hr _ List.mem_cons_self
    have here := atLeaf_of_admitted sound distinct plain held.admitted
    have ends := held.ends
    rw [endKey, asks.stateKey, here.key keyed] at ends
    rw [state, state']
    exact ⟨here, (Except.ok.inj ends).symm⟩
  constructor
  · have keys : routes.map Route.key = plans.map fun plan => m.keyAt plan.state.value := by
      rw [← List.forall₂_eq_eq_eq, List.forall₂_map_right_iff]
      exact arrives.imp fun _ _ h => h.2
    have nodup : (routes.map Route.key).Nodup := List.pairwise_map.2 table.distinct
    rw [keys, ← Function.comp_def, ← List.map_map] at nodup
    exact nodup.of_map
  · intro plan mem
    obtain ⟨_, -, here, -⟩ := exists_left_of_forall₂ arrives mem
    exact here

/-- **Searches of a machine without actions are bounded by its leaves.** The breadth-first search makes its
plans without a limit, and with one that is not below the number of leaves. There is one plan for a leaf at
most, in the first context. The depth-first search ends as well, and its paths have fewer steps than there
are leaves. -/
theorem searches_bounded_by_leaves (made : ofDefinition d = .ok m) (distinct : d.root.DistinctKeys)
    (plain : ∀ source t, m.Declares source t → t.actions = [])
    (answers : ∀ source t f, m.Declares source t → ¬ t.FailsWith f)
    (keyed : ∃ key, m.context.key = .ok key) (asks : Answers o) :
    (∃ plans, (∀ fuel, m.leaves.length ≤ fuel → shortestPlans m.behavior (o.unlimited fuel) = .ok plans) ∧
      (∀ limit : Int, m.leaves.length ≤ limit → shortestPlans m.behavior (o.limited limit) = .ok plans) ∧
      plans.length ≤ m.leaves.length ∧ (plans.map fun plan => plan.state.value).Nodup ∧
      ∀ plan ∈ plans, plan.state.context = m.context ∧
        ∃ leaf ∈ m.leaves, plan.state.value = valueAt leaf.1) ∧
    (∃ plans enough, ∀ fuel, enough ≤ fuel → simplePlans m.behavior (o.unlimited fuel) = .ok plans) ∧
    ∀ plans, simplePlans m.behavior o = .ok plans →
      ∀ plan ∈ plans, ∀ path ∈ plan.paths, path.steps.length < m.leaves.length := by
  have sound := sound_of_ofDefinition made
  have keys := Node.distinctKeys_of_build distinct sound.built
  have keyed := Value.exists_key_iff.1 keyed
  have responds := responds sound keys plain answers keyed asks
  have texts : TextTypes m.behavior o := textTypes sound keys plain asks
  have among : EndsAmong m.behavior o _ := endsAmong_leafKeys sound keys plain keyed asks
  have few : (m.leaves.map fun leaf => m.keyAt (valueAt leaf.1)).toFinset.card ≤ m.leaves.length := by
    have card := List.toFinset_card_le (m.leaves.map fun leaf => m.keyAt (valueAt leaf.1))
    rwa [List.length_map] at card
  obtain ⟨plans, unlimited, limited⟩ := responds.exists_shortestPlans texts among
  refine ⟨⟨plans, fun fuel enough => unlimited fuel (Nat.le_trans few enough),
    fun limit enough => limited limit (Int.le_trans (Int.ofNat_le.2 few) enough), ?_⟩,
    responds.exists_simplePlans texts among, fun plans h plan hplan path hpath =>
      Nat.lt_of_lt_of_le (length_lt_of_simplePlans among h plan hplan path hpath) few⟩
  have asks' : Answers (o.unlimited m.leaves.length) :=
    ⟨asks.stateKey, asks.events, asks.filter, asks.describe⟩
  obtain ⟨values, states⟩ := nodup_values_of_shortestPlans sound keys plain keyed asks' (unlimited _ few)
  have reached : ∀ plan ∈ plans, ∃ leaf ∈ m.leaves, plan.state.value = valueAt leaf.1 :=
    fun plan mem => (states plan mem).exists_leaf
  refine ⟨?_, values, fun plan mem => ⟨(states plan mem).context, reached plan mem⟩⟩
  have inside : (plans.map fun plan => plan.state.value) ⊆ m.leaves.map fun leaf => valueAt leaf.1 := by
    intro value mem
    obtain ⟨plan, hplan, rfl⟩ := List.mem_map.1 mem
    obtain ⟨leaf, hleaf, value⟩ := reached plan hplan
    exact List.mem_map.2 ⟨leaf, hleaf, value.symm⟩
  have short := (values.subperm inside).length_le
  rwa [List.length_map, List.length_map] at short

end

/-! ## A gate -/

/-- The gate opens for whoever pays with a coin. -/
def pay : Transition where
  target := some "open"
  guard := some fun _ e => .ok (Entries.find? e.payload (.text "coin")).isSome

def pass : Transition where
  target := some "closed"

def gate : MachineDefinition where
  id := some (some "gate")
  context := .text "north"
  root := {
    initial := some "closed"
    children := [("closed", { on := [("pay", [.transition pay])] }),
      ("open", { on := [("pass", [.transition pass])] })] }

def gateMachine : Machine where
  id := "gate"
  context := .text "north"
  root := ⟨"gate", "compound", some "closed", none, [],
    [("closed", ⟨"gate.closed", "atomic", none, none, [("pay", [pay])], []⟩),
      ("open", ⟨"gate.open", "atomic", none, none, [("pass", [pass])], []⟩)]⟩

/-- Payment is tried with and without a coin. -/
def gateOptions : Search.Options Snapshot String :=
  { Search.Options.ofKey Snapshot.key with
    events := some fun _ =>
      .ofList [.text "pay", .event (.text "pay") [(.text "coin", .int 1)], .text "pass"] }

theorem gate_answers : Answers gateOptions where
  stateKey := Options.stateKey_ofKey Snapshot.key
  events source given s := by
    cases given
    refine ⟨[.ofType "pay", ⟨.text "pay", [(.text "coin", .int 1)]⟩, .ofType "pass"], rfl, ?_⟩
    simp only [List.forall_mem_cons]
    exact ⟨rfl, rfl, rfl, nofun⟩
  filter := nofun
  describe := nofun

theorem eq_pay_or_pass_of_declares {source : List String} {t : Transition}
    (h : gateMachine.Declares source t) : t = pay ∨ t = pass := by
  obtain ⟨n, type, ts, found, on, mem⟩ := h
  have nodes : gateMachine.root.nodes [] = [([], gateMachine.root),
      (["closed"], ⟨"gate.closed", "atomic", none, none, [("pay", [pay])], []⟩),
      (["open"], ⟨"gate.open", "atomic", none, none, [("pass", [pass])], []⟩)] := rfl
  have listed := Node.mem_nodes_of_at? [] found
  rw [nodes] at listed
  simp only [List.nil_append, List.mem_cons, Prod.mk.injEq, List.not_mem_nil, or_false] at listed
  obtain ⟨-, rfl⟩ | ⟨-, rfl⟩ | ⟨-, rfl⟩ := listed
  · cases on
  · cases List.mem_singleton.1 on
    exact .inl (List.mem_singleton.1 mem)
  · cases List.mem_singleton.1 on
    exact .inr (List.mem_singleton.1 mem)

theorem gate_made : ofDefinition gate = .ok gateMachine := by rfl

theorem gate_distinctKeys : gate.root.DistinctKeys := .intro (by decide) <| by
  simp only [gate, List.forall_mem_cons]
  exact ⟨.of_childless rfl, .of_childless rfl, nofun⟩

theorem gate_plain {source : List String} {t : Transition} (declared : gateMachine.Declares source t) :
    t.actions = [] := by
  obtain rfl | rfl := eq_pay_or_pass_of_declares declared <;> rfl

/-- The gate has two leaves, so two nodes at most, whatever is paid. -/
theorem gate_searches_bounded : ofDefinition gate = .ok gateMachine ∧ gateMachine.leaves.length = 2 ∧
    (∃ plans, shortestPlans gateMachine.behavior (gateOptions.limited 2) = .ok plans ∧
      (∀ fuel, 2 ≤ fuel → shortestPlans gateMachine.behavior (gateOptions.unlimited fuel) = .ok plans) ∧
      plans.length ≤ 2 ∧ ∀ plan ∈ plans, plan.state.context = .text "north") ∧
    ∀ plans, simplePlans gateMachine.behavior gateOptions = .ok plans →
      ∀ plan ∈ plans, ∀ path ∈ plan.paths, path.steps.length < 2 := by
  have two : gateMachine.leaves.length = 2 := by rfl
  have answers : ∀ source t f, gateMachine.Declares source t → ¬ t.FailsWith f := by
    intro source t f declared
    obtain rfl | rfl := eq_pay_or_pass_of_declares declared <;>
      rintro (⟨guard, context, e, given, fails⟩ | ⟨action, listed, -⟩)
    · cases given
      cases fails
    · cases listed
    · cases given
    · cases listed
  obtain ⟨⟨plans, unlimited, limited, few, -, states⟩, -, short⟩ :=
    searches_bounded_by_leaves gate_made gate_distinctKeys (fun _ _ => gate_plain) answers
      ⟨_, Value.key_of_hasKey rfl⟩ gate_answers
  rw [two] at unlimited limited few short
  exact ⟨gate_made, two, ⟨plans, limited 2 (Int.le_refl 2), unlimited, few, fun plan mem => (states plan mem).1⟩,
    short⟩

/-! ## A journal -/

/-- A validated record of the events that were seen, as a set. It would be dumped with a mapping in a set, so its dump
fails. -/
def eventsSeen : Value :=
  .model ⟨"Journal", "seen", "Journal(seen)"⟩ [("seen", .set [.event (.text "A") []])] [] (.ok [])
    (.error ⟨"TypeError", "unhashable type: 'dict'"⟩)

/-- The journal remembers the events that it has seen. -/
def journal : MachineDefinition where
  id := some (some "journal")
  context := eventsSeen
  root := { initial := some "open", children := [("open", {})] }

def journalMachine : Machine where
  id := "journal"
  context := eventsSeen
  root := ⟨"journal", "compound", some "open", none, [],
    [("open", ⟨"journal.open", "atomic", none, none, [], []⟩)]⟩

/-- The journal is a machine without any transitions, but its snapshots have no keys. So no search of it
begins, with whatever limit. -/
theorem journal_not_searched : ofDefinition journal = .ok journalMachine ∧ journal.root.DistinctKeys ∧
    (∀ source t, ¬ journalMachine.Declares source t) ∧
    Answers (Search.Options.ofKey Snapshot.key) ∧ journalMachine.leaves.length = 1 ∧
    (∀ fuel, shortestPlans journalMachine.behavior ((Search.Options.ofKey Snapshot.key).unlimited fuel) =
      .error (.raised "TypeError" "unhashable type: 'dict'")) ∧
    ∀ limit, shortestPlans journalMachine.behavior ((Search.Options.ofKey Snapshot.key).limited limit) =
      .error (.raised "TypeError" "unhashable type: 'dict'") := by
  refine ⟨rfl, ?_, ?_, ⟨Options.stateKey_ofKey Snapshot.key, nofun, nofun, nofun⟩, rfl, fun fuel => rfl,
    fun limit => rfl⟩
  · refine .intro (by decide) ?_
    simp only [journal, List.forall_mem_cons]
    exact ⟨.of_childless rfl, nofun⟩
  · rintro source t ⟨n, type, ts, found, on, mem⟩
    have nodes : journalMachine.root.nodes [] = [([], journalMachine.root),
        (["open"], ⟨"journal.open", "atomic", none, none, [], []⟩)] := rfl
    have listed := Node.mem_nodes_of_at? [] found
    rw [nodes] at listed
    simp only [List.nil_append, List.mem_cons, Prod.mk.injEq, List.not_mem_nil, or_false] at listed
    obtain ⟨-, rfl⟩ | ⟨-, rfl⟩ := listed <;> cases on

end StateWalk.Machine
