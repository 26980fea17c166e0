import StateWalk.Proofs.Search.SimpleVisits

/-!
# Contents of simple plans

Steps are acyclic if they are admitted and meet no node twice. A depth-first search makes a plan for
each node that acyclic steps end at, and `SimplePlanFor` says what is in it: of all acyclic steps to
the node with the same event types the first in pre-order, the shorter paths before the longer ones.

Between the visits and the plan stand three lists of the routes to the node: in pre-order, sorted by
length (`exists_entries`), and as paths (`exists_rows`), of which the first of their types are kept.
-/

namespace StateWalk.Search

open Outcome Selection

variable {σ κ : Type} {b : Behavior σ κ} {o : Options σ κ}

/-- The steps are admitted, and `nodes` are those that they meet, the last one first and none of them
twice. -/
inductive Acyclic (b : Behavior σ κ) (o : Options σ κ) : List (Step σ) → σ → List κ → Prop where
  | initial {k : κ} : o.stateKey b.initial none = .ok k → Acyclic b o [] b.initial [k]
  | send {steps : List (Step σ)} {s t : σ} {nodes : List κ} {e : Event} {k : κ} :
      Acyclic b o steps s nodes → Sends b o s e t → o.stateKey t (some e) = .ok k → k ∉ nodes →
        Acyclic b o (steps ++ [⟨s, e⟩]) t (k :: nodes)

/-- The choices lead from the initial state to the visit, by a route that meets no node twice. -/
def SimpleRoute (b : Behavior σ κ) (o : Options σ κ) (choices : List Nat) (v : Visit σ κ) : Prop :=
  ∃ key, o.stateKey b.initial none = .ok key ∧ Leads b o (Visit.start b key) choices v ∧ v.onRoute.Nodup

/-- The choices lead to the node by this path, and no route to the node that has the same event types
comes before it. -/
def FirstOfTypes (b : Behavior σ κ) (o : Options σ κ) (k : κ) (choices : List Nat) (p : Path σ) : Prop :=
  (∃ v, SimpleRoute b o choices v ∧ v.key = k ∧ v.arrival.path = .ok p) ∧
    ∀ choices' v, SimpleRoute b o choices' v → v.key = k → typesOf v.arrival.steps = typesOf p.steps →
      choices = choices' ∨ List.Lex (· < ·) choices choices'

/-- The path is lighter, or of the same weight and before the other in pre-order. -/
def Earlier (row row' : List Nat × Path σ) : Prop :=
  row.2.weight < row'.2.weight ∨ row.2.weight = row'.2.weight ∧ List.Lex (· < ·) row.1 row'.1

structure SimplePlanFor (b : Behavior σ κ) (o : Options σ κ) (k : κ) (plan : Plan σ) : Prop where
  /-- The paths are the first ones of their event types, by weight and then in pre-order. -/
  firsts : ∃ rows : List (List Nat × Path σ), rows.map Prod.snd = plan.paths ∧
    (∀ row ∈ rows, FirstOfTypes b o k row.1 row.2) ∧ rows.Pairwise Earlier
  acyclic : ∀ p ∈ plan.paths, HasTexts p.steps ∧ p.weight = p.steps.length ∧
    (∃ nodes, Acyclic b o p.steps p.state nodes) ∧ endKey o p.steps p.state = .ok k
  complete : ∀ steps s nodes, Acyclic b o steps s nodes → endKey o steps s = .ok k →
    ∃ p ∈ plan.paths, typesOf p.steps = typesOf steps
  distinct : plan.paths.Pairwise fun p q => typesOf p.steps ≠ typesOf q.steps

/-! ## Routes and steps -/

theorem Leads.concat {v u w : Visit σ κ} {choices : List Nat} {events : List Event} {e : Event} {i : Nat}
    (h : Leads b o v choices u) (tried : eventsAt b o u.arrival.state = .ok events)
    (at_i : events[i]? = some e) (follows : FollowsBy b o u e w) :
    Leads b o v (choices ++ [i]) w := by
  induction choices generalizing v with
  | nil =>
    cases h
    exact ⟨events, e, w, tried, at_i, follows, rfl⟩
  | cons j choices ih =>
    obtain ⟨events', e', u', tried', at_j, follows', rest⟩ := h
    exact ⟨events', e', u', tried', at_j, follows', ih rest⟩

/-- An event sent keeps steps acyclic, as long as no node is on the route twice. -/
theorem FollowsBy.acyclic {v u : Visit σ κ} {e : Event} (h : FollowsBy b o v e u)
    (tried : Tries b o v.arrival.state e)
    (here : v.onRoute.Nodup → Acyclic b o v.arrival.steps v.arrival.state v.onRoute)
    (distinct : u.onRoute.Nodup) : Acyclic b o u.arrival.steps u.arrival.state u.onRoute := by
  have sent := h.sends tried
  cases h with
  | @toward t k _ _ key =>
    obtain ⟨new, distinct⟩ := List.nodup_cons.1 distinct
    rw [Visit.steps_toward]
    exact .send (here distinct) sent key new

theorem SimpleRoute.acyclic {choices : List Nat} {v : Visit σ κ} (h : SimpleRoute b o choices v) :
    Acyclic b o v.arrival.steps v.arrival.state v.onRoute := by
  obtain ⟨key, initial, leads, distinct⟩ := h
  refine leads.preserves
    (P := fun u => u.onRoute.Nodup → Acyclic b o u.arrival.steps u.arrival.state u.onRoute)
    (fun _ _ _ tried follows here => follows.acyclic tried here) ?_ distinct
  exact fun _ => .initial initial

theorem Acyclic.nodup {steps : List (Step σ)} {s : σ} {nodes : List κ}
    (h : Acyclic b o steps s nodes) : nodes.Nodup := by
  induction h with
  | initial _ => exact List.pairwise_singleton _ _
  | send _ _ _ new ih => exact List.nodup_cons.2 ⟨new, ih⟩

/-- For acyclic steps there are choices. -/
theorem Acyclic.exists_leads {steps : List (Step σ)} {s : σ} {nodes : List κ}
    (h : Acyclic b o steps s nodes) : ∃ choices v key, o.stateKey b.initial none = .ok key ∧
      Leads b o (Visit.start b key) choices v ∧
      v.arrival.steps = steps ∧ v.arrival.state = s ∧ v.onRoute = nodes := by
  induction h with
  | @initial key initial => exact ⟨[], _, key, initial, rfl, rfl, rfl, rfl⟩
  | @send steps s t nodes e k _ sent key _ ih =>
    obtain ⟨choices, v, first, initial, leads, rfl, rfl, rfl⟩ := ih
    obtain ⟨events, tried, mem⟩ := sent.tried
    obtain ⟨i, at_i⟩ := List.mem_iff_getElem?.1 mem
    have follows : FollowsBy b o v e (v.toward e t k) := .toward sent.leads sent.passes key
    exact ⟨choices ++ [i], _, first, initial, leads.concat tried at_i follows,
      v.steps_toward e t k, rfl, rfl⟩

theorem SimpleRoute.at {choices : List Nat} {v : Visit σ κ} (h : SimpleRoute b o choices v) :
    v.arrival.At b o v.key := by
  obtain ⟨key, initial, leads, -⟩ := h
  exact leads.at (Arrival.at_initial initial)

/-- Acyclic steps are the routes of the search, without their choices. -/
theorem acyclic_iff_exists_route {k : κ} {steps : List (Step σ)} {s : σ} :
    (∃ nodes, Acyclic b o steps s nodes) ∧ endKey o steps s = .ok k ↔
      ∃ choices v, SimpleRoute b o choices v ∧ v.key = k ∧
        v.arrival.steps = steps ∧ v.arrival.state = s := by
  constructor
  · rintro ⟨⟨nodes, acyclic⟩, ends⟩
    obtain ⟨choices, v, key, initial, leads, rfl, rfl, rfl⟩ := acyclic.exists_leads
    have route : SimpleRoute b o choices v := ⟨key, initial, leads, acyclic.nodup⟩
    exact ⟨choices, v, route, Except.ok.inj (route.at.ends.symm.trans ends), rfl, rfl⟩
  · rintro ⟨choices, v, route, rfl, rfl, rfl⟩
    exact ⟨⟨_, route.acyclic⟩, route.at.ends⟩

/-! ## The routes to a node -/

/-- The paths to a node with their choices, those that a plan is made of before any is left out. -/
structure PathsTo (b : Behavior σ κ) (o : Options σ κ) (k : κ) (rows : List (List Nat × Path σ)) :
    Prop where
  sound : ∀ row ∈ rows, ∃ v, SimpleRoute b o row.1 v ∧ v.key = k ∧ v.arrival.path = .ok row.2
  complete : ∀ choices v, SimpleRoute b o choices v → v.key = k →
    ∃ p, (choices, p) ∈ rows ∧ v.arrival.path = .ok p
  ordered : rows.Pairwise Earlier

/-- Paths of the same types weigh the same. -/
theorem PathsTo.not_lighter {k : κ} {rows : List (List Nat × Path σ)} (h : PathsTo b o k rows)
    {row row' : List Nat × Path σ} (hrow : row ∈ rows) (hrow' : row' ∈ rows)
    (same : typesOf row.2.steps = typesOf row'.2.steps) : ¬ row.2.weight < row'.2.weight := by
  have weight : ∀ row ∈ rows, row.2.weight = (typesOf row.2.steps).length := by
    intro row hrow
    obtain ⟨v, -, -, path⟩ := h.sound row hrow
    obtain ⟨_, -, eq⟩ := Arrival.path_eq_ok_iff.1 path
    rw [eq, typesOf, List.length_map, Arrival.length_steps]
  rw [weight row hrow, weight row' hrow', same]
  exact Int.lt_irrefl _

theorem PathsTo.acyclic {k : κ} {rows : List (List Nat × Path σ)} (h : PathsTo b o k rows)
    {row : List Nat × Path σ} (hrow : row ∈ rows) :
    HasTexts row.2.steps ∧ row.2.weight = row.2.steps.length ∧
      (∃ nodes, Acyclic b o row.2.steps row.2.state nodes) ∧
      endKey o row.2.steps row.2.state = .ok k := by
  obtain ⟨choices, p⟩ := row
  obtain ⟨v, route, key, path⟩ := h.sound _ hrow
  have texts := Arrival.hasTexts_of_path path
  obtain ⟨_, _, rfl⟩ := Arrival.path_eq_ok_iff.1 path
  have ends := acyclic_iff_exists_route.2 ⟨choices, v, route, key, rfl, rfl⟩
  exact ⟨texts, by simp, ends⟩

theorem PathsTo.firstOfTypes {k : κ} {rows firsts : List (List Nat × Path σ)} (h : PathsTo b o k rows)
    (spec : FirstsOf (fun row => typesOf row.2.steps) [] rows firsts) {row : List Nat × Path σ}
    (hrow : row ∈ firsts) : FirstOfTypes b o k row.1 row.2 := by
  have mem_rows := spec.sublist.subset hrow
  refine ⟨h.sound row mem_rows, fun choices' v route key types => ?_⟩
  obtain ⟨p, mem, path⟩ := h.complete choices' v route key
  obtain ⟨_, _, rfl⟩ := Arrival.path_eq_ok_iff.1 path
  obtain rfl | lighter | ⟨-, before⟩ := spec.eq_or_before h.ordered hrow mem types.symm
  · exact .inl rfl
  · exact absurd lighter (h.not_lighter mem_rows mem types.symm)
  · exact .inr before

/-- Of the paths to a node, the firsts of their types are what is said of a plan for the node. -/
theorem PathsTo.simplePlanFor {k : κ} {rows firsts : List (List Nat × Path σ)} (h : PathsTo b o k rows)
    (spec : FirstsOf (fun row => typesOf row.2.steps) [] rows firsts) {plan : Plan σ}
    (paths : plan.paths = firsts.map Prod.snd) : SimplePlanFor b o k plan := by
  constructor
  · exact ⟨firsts, paths.symm, fun row hrow => h.firstOfTypes spec hrow, h.ordered.sublist spec.sublist⟩
  · intro p hp
    rw [paths] at hp
    obtain ⟨row, mem, rfl⟩ := List.mem_map.1 hp
    exact h.acyclic (spec.sublist.subset mem)
  · intro steps s nodes acyclic ends
    obtain ⟨choices, v, route, key, rfl, rfl⟩ := acyclic_iff_exists_route.1 ⟨⟨nodes, acyclic⟩, ends⟩
    obtain ⟨p, mem, path⟩ := h.complete choices v route key
    obtain ⟨_, _, rfl⟩ := Arrival.path_eq_ok_iff.1 path
    obtain ⟨first, kept, same, -⟩ := spec.exists_first mem
    exact ⟨first.2, paths ▸ List.mem_map_of_mem kept, same⟩
  · rw [paths, List.pairwise_map]
    exact spec.distinct

section

variable [KeyType κ] [LawfulKeyType κ]

/-- The visits are those of all simple routes, in pre-order. -/
theorem exists_table {visits : List (Visit σ κ)} (run : simpleVisits b o = .ok visits) :
    ∃ table : List (List Nat × Visit σ κ), table.map Prod.snd = visits ∧
      table.Pairwise (fun x y => List.Lex (· < ·) x.1 y.1) ∧
      ∀ choices v, (choices, v) ∈ table ↔ SimpleRoute b o choices v := by
  obtain ⟨key, initial, table, eq, sorted, members⟩ := inPreorder_of_simpleVisits run
  refine ⟨table, eq, List.pairwise_map.1 sorted, fun choices v => ?_⟩
  rw [members]
  constructor
  · exact fun h => ⟨key, initial, h⟩
  · rintro ⟨key', initial', h⟩
    cases initial.symm.trans initial'
    exact h

/-- The routes to a node, the shorter ones first and those of one length in pre-order. -/
theorem exists_entries {visits : List (Visit σ κ)} (run : simpleVisits b o = .ok visits) (k : κ) :
    ∃ entries : List (List Nat × Visit σ κ),
      entries.map (fun entry => entry.2.arrival) = byDepth (arrivalsAt visits k) ∧
      entries.Pairwise (fun x y => x.2.arrival.depth ≤ y.2.arrival.depth ∧
        (y.2.arrival.depth ≤ x.2.arrival.depth → List.Lex (· < ·) x.1 y.1)) ∧
      ∀ choices v, (choices, v) ∈ entries ↔ SimpleRoute b o choices v ∧ v.key = k := by
  obtain ⟨table, rfl, sorted, members⟩ := exists_table run
  let le (x y : List Nat × Visit σ κ) : Bool := decide (x.2.arrival.depth ≤ y.2.arrival.depth)
  let at_node := table.filter fun entry => KeyType.same entry.2.key k
  refine ⟨at_node.mergeSort le, ?_, ?_, ?_⟩
  · rw [byDepth, arrivalsAt, List.filter_map, List.map_map]
    exact List.map_mergeSort fun _ _ _ _ => rfl
  · have stable := pairwise_mergeSort le
      (fun x y z => by simp only [le, decide_eq_true_eq]; omega)
      (fun x y => by simp only [le, Bool.or_eq_true, decide_eq_true_eq]; omega)
      (sorted.filter fun entry => KeyType.same entry.2.key k)
    simpa only [le, decide_eq_true_eq] using stable
  · intro choices v
    rw [List.mem_mergeSort, List.mem_filter, members, LawfulKeyType.same_iff]

theorem exists_rows {visits : List (Visit σ κ)} (run : simpleVisits b o = .ok visits) (k : κ)
    {describe : σ → Except Fault κ} {first : Arrival σ} {others : List (Arrival σ)} {plan : Plan σ}
    (sorted : byDepth (arrivalsAt visits k) = first :: others)
    (planned : planOf describe first others = .ok plan) :
    ∃ rows, rows.map Prod.snd = plan.paths ∧ PathsTo b o k rows := by
  obtain ⟨entries, arrivals, ordered, members⟩ := exists_entries run k
  obtain ⟨paths, _, made, -, rfl⟩ := planOf_eq_ok_iff.1 planned
  rw [← sorted, ← arrivals, List.forall₂_map_left_iff] at made
  obtain ⟨pairs, rfl, rfl, path⟩ := exists_pairs_of_forall₂ made
  refine ⟨pairs.map fun pair => (pair.1.1, pair.2), by simp, ?_, ?_, ?_⟩
  · intro row hrow
    obtain ⟨⟨⟨choices, v⟩, p⟩, mem, rfl⟩ := List.mem_map.1 hrow
    obtain ⟨route, key⟩ := (members choices v).1 (List.mem_map_of_mem mem)
    exact ⟨v, route, key, path _ mem⟩
  · intro choices v route key
    obtain ⟨⟨⟨_, _⟩, p⟩, mem, eq⟩ := List.mem_map.1 ((members choices v).2 ⟨route, key⟩)
    cases eq
    exact ⟨p, List.mem_map.2 ⟨_, mem, rfl⟩, path _ mem⟩
  · rw [List.pairwise_map] at ordered ⊢
    refine ordered.imp_of_mem fun {x y} hx hy ⟨le, tie⟩ => ?_
    have weight := Arrival.weight_of_path (path x hx)
    have weight' := Arrival.weight_of_path (path y hy)
    unfold Earlier
    rw [weight, weight']
    rcases Nat.lt_or_eq_of_le le with lt | eq
    · exact .inl (by exact_mod_cast lt)
    · exact .inr ⟨by rw [eq], tie (Nat.le_of_eq eq.symm)⟩

/-- The plan made of the visits at a node. -/
theorem simplePlanFor_of_simplePlan? {visits : List (Visit σ κ)} (run : simpleVisits b o = .ok visits)
    {k : κ} {describe : σ → Except Fault κ} {plan : Plan σ} (some_arrival : arrivalsAt visits k ≠ [])
    (h : simplePlan? describe (arrivalsAt visits k) = .ok (some plan)) : SimplePlanFor b o k plan := by
  obtain ⟨first, others, full, _, sorted, planned, made, eq⟩ := simplePlan?_eq_ok some_arrival h
  cases eq
  obtain ⟨rows, paths, all⟩ := exists_rows run k sorted planned
  obtain ⟨kept, filtered, rfl⟩ := Plan.distinctSignatures_eq_ok made
  rw [← paths] at filtered
  have texts : ∀ row ∈ rows, HasTexts row.2.steps := by
    intro row hrow
    obtain ⟨v, -, -, path⟩ := all.sound row hrow
    exact Arrival.hasTexts_of_path path
  obtain ⟨firsts, rfl, spec⟩ :=
    Plan.firstsOf_of_firstOfSignature Prod.snd Plan.seenTypes_nil texts filtered
  exact all.simplePlanFor spec rfl

/-- The nodes visited are those that acyclic steps end at. -/
theorem mem_keys_iff_exists_acyclic {visits : List (Visit σ κ)} (run : simpleVisits b o = .ok visits)
    (k : κ) : k ∈ visits.map Visit.key ↔
      ∃ steps s nodes, Acyclic b o steps s nodes ∧ endKey o steps s = .ok k := by
  obtain ⟨table, rfl, -, members⟩ := exists_table run
  rw [List.map_map]
  constructor
  · intro hk
    obtain ⟨⟨choices, v⟩, mem, key⟩ := List.mem_map.1 hk
    obtain ⟨⟨nodes, acyclic⟩, ends⟩ :=
      acyclic_iff_exists_route.2 ⟨choices, v, (members _ _).1 mem, key, rfl, rfl⟩
    exact ⟨_, _, nodes, acyclic, ends⟩
  · rintro ⟨steps, s, nodes, acyclic, ends⟩
    obtain ⟨choices, v, route, key, -⟩ := acyclic_iff_exists_route.1 ⟨⟨nodes, acyclic⟩, ends⟩
    exact List.mem_map.2 ⟨(choices, v), (members _ _).2 route, key⟩

/-- **Simple plans hold the acyclic paths.** There is a plan for every node that acyclic steps end at,
and for no other. -/
theorem simplePlans_hold_acyclic_paths {plans : List (Plan σ)} (h : simplePlans b o = .ok plans) :
    ∃ keys : List κ, keys.Nodup ∧
      (∀ k, k ∈ keys ↔ ∃ steps s nodes, Acyclic b o steps s nodes ∧ endKey o steps s = .ok k) ∧
      List.Forall₂ (SimplePlanFor b o) keys plans := by
  obtain ⟨visits, groups, run, grouped, made⟩ := simplePlans_eq_ok h
  refine ⟨groups.map Prod.fst, grouped.nodes.distinct, fun k => ?_, ?_⟩
  · rw [grouped.nodes.mem_iff, mem_keys_iff_exists_acyclic run]
  · refine forall₂_map_left made ?_
    intro g hg plan ⟨some_arrival, made⟩
    rw [grouped.arrivals g hg] at some_arrival made
    exact simplePlanFor_of_simplePlan? run some_arrival made

/-- Six of the carousel's routes lead to the third place by a step, but its plan has two paths, since the
others have the event types of one of these. -/
theorem carousel_plans_hold_acyclic_paths :
    ∃ plans, simplePlans carousel carouselOptions = .ok plans ∧
      plans.map (fun plan => plan.paths.map Path.description) =
        [["via initial state"], ["via step", "via skip -> skip"],
          ["via step -> step", "via skip -> skip -> step"], ["via skip"]] ∧
      ∃ keys : List String, keys.Nodup ∧
        (∀ k, k ∈ keys ↔ ∃ steps s nodes, Acyclic carousel carouselOptions steps s nodes ∧
          endKey carouselOptions steps s = .ok k) ∧
        List.Forall₂ (SimplePlanFor carousel carouselOptions) keys plans := by
  obtain ⟨plans, made, shown⟩ := exists_carousel_simplePlans
  exact ⟨plans, made, shown, simplePlans_hold_acyclic_paths made⟩

end

end StateWalk.Search
