import StateWalk.Proofs.Search.Limit
import StateWalk.Proofs.Search.Representatives
import StateWalk.Proofs.Search.SameGraph

/-!
# Ties

A shortest plan that keeps ties has a path for every last hop into its node that is as short as the first
one: from the first path of a plan that is one step shorter, by one event into the node (`lastHops`).

While the search runs, each route has collected those of the hops met so far that lead to its node and are
as short as its first one (`Collects`). Hops that lead to a node that was expanded before are met too late:
they are longer than the first hop there. So nothing needs to be added to routes that do not wait any more,
and `append_discover` says that the search does to all routes what it does to those that wait.

Ties have no influence on where the search goes. Without them it finds the same routes (`explore_untie`).
-/

namespace StateWalk

open Search Outcome

variable {σ κ : Type}

/-- The plan with its first path only. -/
def Plan.onlyFirst (plan : Plan σ) : Plan σ := { plan with paths := plan.paths.take 1 }

namespace Search

/-- The options, with ties kept or not. -/
def Options.keeping (o : Options σ κ) (keepTies : Bool) : Options σ κ := { o with keepTies }

@[simp]
theorem Options.keepTies_keeping (o : Options σ κ) (keepTies : Bool) :
    (o.keeping keepTies).keepTies = keepTies := rfl

theorem sameGraph_keeping (o : Options σ κ) (keepTies : Bool) : SameGraph o (o.keeping keepTies) :=
  ⟨rfl, rfl, rfl⟩

section

variable [KeyType κ]

/-- The path that has one step more, by this event, if that leads into the node. -/
def hopInto (b : Behavior σ κ) (o : Options σ κ) (k : κ) (s : σ) (steps : List (Step σ)) (e : Event) :
    Except Fault (Option (Path σ)) := do
  let next ← b.transition s e
  if ← o.admits next then
    let key ← o.stateKey next (some e)
    if KeyType.same k key then return some (← Path.ofSteps next (steps ++ [⟨s, e⟩])) else return none
  else return none

/-- The paths into the node that have one step more, in the order of the events tried in the state. -/
def hopsInto (b : Behavior σ κ) (o : Options σ κ) (k : κ) (s : σ) (steps : List (Step σ)) :
    Except Fault (List (Path σ)) := do
  let es ← eventsAt b o s
  return (← es.mapM (hopInto b o k s steps)).flatMap Option.toList

/-- The paths of this weight into the node that have one step more than the plan's first path. -/
def lastHopsFrom (b : Behavior σ κ) (o : Options σ κ) (k : κ) (weight : Int) (plan : Plan σ) :
    Except Fault (List (Path σ)) :=
  match plan.paths with
  | [] => .ok []
  | p :: _ => if p.weight + 1 = weight then hopsInto b o k plan.state p.steps else .ok []

/-- The paths of this weight into the node that have one step more than the first path of a plan, in the
order of the plans. -/
def lastHops (b : Behavior σ κ) (o : Options σ κ) (k : κ) (weight : Int) (plans : List (Plan σ)) :
    Except Fault (List (Path σ)) := do
  return (← plans.mapM (lastHopsFrom b o k weight)).flatten

/-- The first plan has the empty path only, every other one the last hops into its node that are as short
as its first path, and each of these goes on from the first path of a plan. -/
structure KeepsTies (b : Behavior σ κ) (o : Options σ κ) (plans : List (Plan σ)) : Prop where
  first : ∃ plan rest p, plans = plan :: rest ∧ plan.state = b.initial ∧ plan.paths = [p] ∧ p.steps = []
  others : ∀ plan ∈ plans.tail, ∃ p ps k, plan.paths = p :: ps ∧ endKey o p.steps p.state = .ok k ∧
    lastHops b o k p.weight plans = .ok plan.paths
  sources : ∀ plan ∈ plans, ∀ path ∈ plan.paths, path.steps ≠ [] →
    ∃ source ∈ plans, ∃ p ps e, source.paths = p :: ps ∧ path.steps = p.steps ++ [⟨source.state, e⟩]

end

/-! ## Without ties -/

/-- The route without its ties. -/
def Route.untie (r : Route σ κ) : Route σ κ := { r with ties := [] }

section

variable [KeyType κ] {b : Behavior σ κ} {o : Options σ κ}

@[simp]
theorem Route.untie_addTie (r : Route σ κ) (k : κ) (a : Arrival σ) : (r.addTie k a).untie = r.untie := by
  unfold addTie
  split <;> rfl

theorem isFound_untie (routes : List (Route σ κ)) (k : κ) :
    isFound (routes.map Route.untie) k = isFound routes k := by
  rw [isFound, List.any_map]
  rfl

theorem discover_untie (o : Options σ κ) (source : Arrival σ) (expanded frontier : List (Route σ κ))
    (x : Successor σ κ) :
    discover (o.keeping false) source (expanded.map Route.untie) (frontier.map Route.untie) x =
      (discover (o.keeping true) source expanded frontier x).map Route.untie := by
  simp only [discover, isFound_untie, Options.keepTies_keeping, Bool.false_eq_true, if_false, if_true]
  split
  · rfl
  · split
    · rw [List.map_map]
      exact List.map_congr_left fun r _ => (r.untie_addTie _ _).symm
    · rw [List.map_append]
      rfl

theorem foldl_discover_untie (o : Options σ κ) (source : Arrival σ) (expanded frontier : List (Route σ κ))
    (found : List (Successor σ κ)) :
    found.foldl (discover (o.keeping false) source (expanded.map Route.untie)) (frontier.map Route.untie) =
      (found.foldl (discover (o.keeping true) source expanded) frontier).map Route.untie := by
  induction found generalizing frontier with
  | nil => rfl
  | cons x found ih => rw [List.foldl_cons, List.foldl_cons, discover_untie, ih]

/-- Ties have no influence on where the search goes. -/
theorem explore_untie (b : Behavior σ κ) (o : Options σ κ) (budget : Nat)
    (expanded frontier : List (Route σ κ)) :
    explore b (o.keeping false) budget (expanded.map Route.untie) (frontier.map Route.untie) =
      (explore b (o.keeping true) budget expanded frontier).map (List.map Route.untie) := by
  induction budget generalizing expanded frontier with
  | zero => cases frontier <;> rfl
  | succ budget ih =>
    cases frontier with
    | nil => rfl
    | cons r frontier =>
      have asked : successors b (o.keeping false) entersFiled r.untie.first.state =
          successors b (o.keeping true) entersFiled r.first.state := by
        rw [(sameGraph_keeping o false).successors_eq, (sameGraph_keeping o true).successors_eq]
        rfl
      simp only [explore, List.map_cons, asked]
      cases successors b (o.keeping true) entersFiled r.first.state with
      | error e => rfl
      | ok found =>
        have expanded_untie : expanded.map Route.untie ++ [r.untie] = (expanded ++ [r]).map Route.untie := by
          rw [List.map_append, List.map_singleton]
        have next := ih (expanded ++ [r])
          (found.foldl (discover (o.keeping true) r.first (expanded ++ [r])) frontier)
        rw [← foldl_discover_untie, ← expanded_untie] at next
        exact next

theorem shortestRoutes_untie (b : Behavior σ κ) (o : Options σ κ) :
    shortestRoutes b (o.keeping false) =
      (shortestRoutes b (o.keeping true)).map (List.map Route.untie) := by
  simp only [shortestRoutes, (sameGraph_keeping o false).nodeKey_eq, (sameGraph_keeping o true).nodeKey_eq]
  cases o.nodeKey b.initial none with
  | error e => rfl
  | ok k => exact explore_untie b o o.budget [] [⟨k, ⟨b.initial, []⟩, []⟩]

theorem Route.plan_untie {describe : σ → Except Fault κ} {r : Route σ κ} {plan : Plan σ}
    (h : r.plan describe = .ok plan) : r.untie.plan describe = .ok plan.onlyFirst := by
  obtain ⟨paths, description, made, described, rfl⟩ := planOf_eq_ok_iff.1 h
  cases made with
  | cons first _ => exact planOf_eq_ok_iff.2 ⟨_, description, .cons first .nil, described, rfl⟩

/-- The plans without ties are those with ties, as far as their first paths go. -/
theorem shortestPlans_onlyFirst {tied : List (Plan σ)} (h : shortestPlans b (o.keeping true) = .ok tied) :
    shortestPlans b (o.keeping false) = .ok (tied.map Plan.onlyFirst) := by
  obtain ⟨routes, found, made⟩ := shortestPlans_eq_ok_iff.1 h
  refine shortestPlans_eq_ok_iff.2 ⟨routes.map Route.untie, ?_, ?_⟩
  · rw [shortestRoutes_untie, found]
    rfl
  · rw [List.forall₂_map_left_iff, List.forall₂_map_right_iff]
    exact made.imp fun r plan => Route.plan_untie

end

/-! ## What the routes collect -/

section

variable [KeyType κ]

/-- Of the arrivals met at nodes, those at the route's node that are as short as its first one. -/
def Route.among (r : Route σ κ) (met : List (κ × Arrival σ)) : List (Arrival σ) :=
  (met.filter fun m => KeyType.same r.key m.1 ∧ r.first.depth = m.2.depth).map Prod.snd

/-- Each route has collected what concerns it of the arrivals met, and each of them was at the node of a
route. -/
structure Collects (routes : List (Route σ κ)) (met : List (κ × Arrival σ)) : Prop where
  collected : ∀ r ∈ routes, r.first :: r.ties = r.among met
  known : ∀ m ∈ met, isFound routes m.1 = true

theorem Route.among_append (r : Route σ κ) (met more : List (κ × Arrival σ)) :
    r.among (met ++ more) = r.among met ++ r.among more := by
  rw [among, List.filter_append, List.map_append]
  rfl

theorem Route.among_singleton (r : Route σ κ) (k : κ) (a : Arrival σ) :
    r.among [(k, a)] = if KeyType.same r.key k ∧ r.first.depth = a.depth then [a] else [] := by
  simp only [among, List.filter_cons, List.filter_nil, decide_eq_true_eq]
  split <;> rfl

theorem Route.among_cons (r : Route σ κ) (k : κ) (a : Arrival σ) (met : List (κ × Arrival σ)) :
    r.among ((k, a) :: met) =
      (if KeyType.same r.key k ∧ r.first.depth = a.depth then [a] else []) ++ r.among met := by
  rw [← among_singleton, ← among_append, List.singleton_append]

theorem Route.among_addTie (r : Route σ κ) (k : κ) (a : Arrival σ) (met : List (κ × Arrival σ)) :
    (r.addTie k a).among met = r.among met := by
  simp only [among, key_addTie, first_addTie]

/-- A route adds an arrival to its ties exactly if that one concerns it. -/
theorem Route.collected_addTie {r : Route σ κ} {met : List (κ × Arrival σ)}
    (h : r.first :: r.ties = r.among met) (k : κ) (a : Arrival σ) :
    (r.addTie k a).first :: (r.addTie k a).ties = (r.addTie k a).among (met ++ [(k, a)]) := by
  rw [among_addTie, among_append, among_singleton, ← h, first_addTie, addTie]
  split
  · rfl
  · rw [List.append_nil]

theorem isFound_addTie (routes : List (Route σ κ)) (k l : κ) (a : Arrival σ) :
    isFound (routes.map fun r => r.addTie k a) l = isFound routes l := by
  rw [isFound, List.any_map]
  exact congrArg routes.any (funext fun r => by rw [Function.comp_apply, Route.key_addTie])

variable [LawfulKeyType κ]

theorem Collects.meet {routes : List (Route σ κ)} {met : List (κ × Arrival σ)} (h : Collects routes met)
    (k : κ) (a : Arrival σ) :
    Collects ((routes.map fun r => r.addTie k a) ++ if isFound routes k then [] else [⟨k, a, []⟩])
      (met ++ [(k, a)]) where
  collected := by
    intro r mem
    rcases List.mem_append.1 mem with mem | mem
    · obtain ⟨q, hq, rfl⟩ := List.mem_map.1 mem
      exact Route.collected_addTie (h.collected q hq) k a
    · by_cases found : isFound routes k = true
      · rw [if_pos found] at mem
        cases mem
      · rw [if_neg found, List.mem_singleton] at mem
        subst mem
        have before : Route.among ⟨k, a, []⟩ met = [] := by
          rw [Route.among, List.map_eq_nil_iff, List.filter_eq_nil_iff]
          rintro m hm concerns
          obtain ⟨same, -⟩ := of_decide_eq_true concerns
          rw [LawfulKeyType.same_iff] at same
          subst same
          exact found (h.known m hm)
        rw [Route.among_append, before, Route.among_singleton,
          if_pos ⟨(LawfulKeyType.same_iff k k).2 rfl, rfl⟩]
        rfl
  known := by
    intro m mem
    rw [isFound, List.any_append, Bool.or_eq_true]
    rcases List.mem_append.1 mem with mem | mem
    · exact .inl ((isFound_addTie routes k m.1 a).trans (h.known m mem))
    · rw [List.mem_singleton] at mem
      subst mem
      by_cases found : isFound routes k = true
      · exact .inl ((isFound_addTie routes k k a).trans found)
      · rw [if_neg found]
        exact .inr (by simp [LawfulKeyType.same_iff])

variable {b : Behavior σ κ} {o : Options σ κ} {expanded frontier : List (Route σ κ)}

/-- A successor does to all routes what it does to those that wait. -/
theorem append_discover (keeps : o.keepTies = true) {source : Arrival σ}
    (table : Table b o (expanded ++ frontier)) (shallow : ∀ r ∈ expanded, r.first.depth ≤ source.depth)
    (x : Successor σ κ) :
    expanded ++ discover o source expanded frontier x =
      ((expanded ++ frontier).map fun r => r.addTie x.key (source.extend x)) ++
        if isFound (expanded ++ frontier) x.key then [] else [⟨x.key, source.extend x, []⟩] := by
  have expanded_same : (expanded.map fun r => r.addTie x.key (source.extend x)) = expanded := by
    refine (List.map_congr_left fun r hr => ?_).trans expanded.map_id
    refine if_neg fun concerns => ?_
    exact absurd (shallow r hr) (by rw [concerns.2, Arrival.depth_extend]; exact Nat.not_succ_le_self _)
  have frontier_same (other : ∀ r ∈ frontier, r.key ≠ x.key) :
      (frontier.map fun r => r.addTie x.key (source.extend x)) = frontier := by
    refine (List.map_congr_left fun r hr => ?_).trans frontier.map_id
    exact if_neg fun concerns => other r hr ((LawfulKeyType.same_iff _ _).1 concerns.1)
  have found_iff : isFound (expanded ++ frontier) x.key =
      (isFound expanded x.key || isFound frontier x.key) := List.any_append
  rw [List.map_append, expanded_same, found_iff, discover]
  by_cases late : isFound expanded x.key = true
  · obtain ⟨q, hq, key⟩ := (isFound_iff _ _).1 late
    have other : ∀ r ∈ frontier, r.key ≠ x.key := fun r hr eq =>
      (List.pairwise_append.1 table.distinct).2.2 q hq r hr (key.trans eq.symm)
    rw [if_pos late, frontier_same other, late, Bool.true_or, if_pos rfl, List.append_nil]
  · rw [Bool.not_eq_true] at late
    rw [late, Bool.false_or, if_neg Bool.false_ne_true]
    by_cases waits : isFound frontier x.key = true
    · rw [if_pos waits, if_pos waits, if_pos keeps, List.append_nil]
    · have other : ∀ r ∈ frontier, r.key ≠ x.key := fun r hr eq =>
        waits ((isFound_iff _ _).2 ⟨r, hr, eq⟩)
      rw [if_neg waits, if_neg waits, frontier_same other, List.append_assoc]

/-- The arrivals at nodes by one step from the route, and what they are found by. -/
def Route.LeadsTo (b : Behavior σ κ) (o : Options σ κ) (r : Route σ κ) (hops : List (κ × Arrival σ)) :
    Prop :=
  ∃ found, successors b o entersFiled r.first.state = .ok found ∧
    hops = found.map fun x => (x.key, r.first.extend x)

theorem Collects.discoverAll (keeps : o.keepTies = true) {source : Arrival σ}
    {met : List (κ × Arrival σ)} {found : List (Successor σ κ)}
    (stage : Stage b o source (expanded ++ frontier))
    (shallow : ∀ r ∈ expanded, r.first.depth ≤ source.depth)
    (arrivals : ∀ x ∈ found, (source.extend x).At b o x.key) (h : Collects (expanded ++ frontier) met) :
    Collects (expanded ++ found.foldl (discover o source expanded) frontier)
      (met ++ found.map fun x => (x.key, source.extend x)) := by
  induction found generalizing frontier met with
  | nil => simpa using h
  | cons x found ih =>
    rw [List.forall_mem_cons] at arrivals
    have next : Collects (expanded ++ discover o source expanded frontier x)
        (met ++ [(x.key, source.extend x)]) := by
      rw [append_discover keeps stage.table shallow]
      exact h.meet x.key (source.extend x)
    have all := ih (stage.discover arrivals.1).1 arrivals.2 next
    rw [List.append_assoc, List.singleton_append] at all
    exact all

/-- The routes have collected what they should of the start and of the hops from the routes that are
expanded. -/
def CollectsHops (b : Behavior σ κ) (o : Options σ κ) (expanded frontier : List (Route σ κ)) : Prop :=
  ∃ k parts, o.stateKey b.initial none = .ok k ∧ List.Forall₂ (Route.LeadsTo b o) expanded parts ∧
    Collects (expanded ++ frontier) ((k, ⟨b.initial, []⟩) :: parts.flatten)

theorem CollectsHops.initial {k : κ} (h : o.stateKey b.initial none = .ok k) :
    CollectsHops b o [] [⟨k, ⟨b.initial, []⟩, []⟩] := by
  have here := (⟨by simp, by simp⟩ : Collects ([] : List (Route σ κ)) []).meet k ⟨b.initial, []⟩
  exact ⟨k, [], h, .nil, here⟩

theorem CollectsHops.step (keeps : o.keepTies = true) {r : Route σ κ} {found : List (Successor σ κ)}
    (progress : Progress b o expanded (r :: frontier)) (h : CollectsHops b o expanded (r :: frontier))
    (computed : successors b o entersFiled r.first.state = .ok found) :
    CollectsHops b o (expanded ++ [r]) (found.foldl (discover o r.first (expanded ++ [r])) frontier) := by
  obtain ⟨k, parts, start, leads, collects⟩ := h
  have split : expanded ++ r :: frontier = (expanded ++ [r]) ++ frontier := by simp
  have here : r ∈ expanded ++ r :: frontier := by simp
  have stage : Stage b o r.first ((expanded ++ [r]) ++ frontier) :=
    ⟨split ▸ progress.table, split ▸ progress.near r List.mem_cons_self⟩
  have shallow : ∀ q ∈ expanded ++ [r], q.first.depth ≤ r.first.depth := by
    intro q hq
    rcases List.mem_append.1 hq with hq | hq
    · exact (List.pairwise_append.1 progress.table.ordered).2.2 q hq r List.mem_cons_self
    · exact List.mem_singleton.1 hq ▸ Nat.le_refl _
  have arrivals := progress.table.at_successors here computed
  have after := (split ▸ collects).discoverAll keeps stage shallow arrivals
  refine ⟨k, parts ++ [_], start, List.rel_append leads (.cons ⟨found, computed, rfl⟩ .nil), ?_⟩
  simpa using after

theorem CollectsHops.explore (keeps : o.keepTies = true) {budget : Nat} {routes : List (Route σ κ)}
    (progress : Progress b o expanded frontier) (h : CollectsHops b o expanded frontier)
    (run : Search.explore b o budget expanded frontier = .ok routes) : CollectsHops b o routes [] := by
  induction budget generalizing expanded frontier with
  | zero =>
    cases frontier with
    | nil =>
      cases run
      exact h
    | cons r frontier => cases run
  | succ budget ih =>
    cases frontier with
    | nil =>
      cases run
      exact h
    | cons r frontier =>
      obtain ⟨found, computed, run⟩ := bind_eq_ok_iff.1 run
      exact ih (progress.step computed) (h.step keeps progress computed) run

theorem collectsHops_of_shortestRoutes (keeps : o.keepTies = true) {routes : List (Route σ κ)}
    (h : shortestRoutes b o = .ok routes) : CollectsHops b o routes [] := by
  obtain ⟨k, key, run⟩ := bind_eq_ok_iff.1 h
  rw [nodeKey_eq_stateKey] at key
  exact (CollectsHops.initial key).explore keeps (Progress.initial key) run

/-! ## The last hops of plans -/

/-- One event makes a hop into the node exactly if it has a successor there. -/
theorem hopInto_of_successor? {a : Arrival σ} {e : Event} {r : Option (Successor σ κ)} {k : κ}
    {paths : List (Path σ)} (computed : successor? b o entersFiled a.state e = .ok r)
    (made : List.Forall₂ (fun a p => Arrival.path a = .ok p)
      ((r.toList.filter fun x => KeyType.same k x.key).map a.extend) paths) :
    ∃ hop, hopInto b o k a.state a.steps e = .ok hop ∧ paths = hop.toList := by
  obtain ⟨t, leads, ⟨passes, rfl⟩ | ⟨passes, l, key, ⟨asked, -⟩ | ⟨-, rfl⟩⟩⟩ :=
    successor?_eq_ok_iff.1 computed
  · cases made
    exact ⟨none, bind_eq_ok_iff.2 ⟨t, leads, bind_eq_ok_iff.2 ⟨false, passes, rfl⟩⟩, rfl⟩
  · rw [entersFiled_eq] at asked
    cases asked
  · by_cases same : KeyType.same k l = true
    · simp only [Option.toList_some, List.filter_cons, same, if_true, List.filter_nil] at made
      cases made with
      | @cons _ p _ _ path rest =>
        cases rest
        rw [Arrival.path, ← Arrival.steps, Arrival.steps_extend] at path
        refine ⟨some p, bind_eq_ok_iff.2 ⟨t, leads, bind_eq_ok_iff.2 ⟨true, passes, ?_⟩⟩, rfl⟩
        refine bind_eq_ok_iff.2 ⟨l, key, ?_⟩
        rw [if_pos same]
        exact bind_eq_ok_iff.2 ⟨p, path, rfl⟩
    · simp only [Option.toList_some, List.filter_cons, same, List.filter_nil] at made
      cases made
      refine ⟨none, bind_eq_ok_iff.2 ⟨t, leads, bind_eq_ok_iff.2 ⟨true, passes, ?_⟩⟩, rfl⟩
      refine bind_eq_ok_iff.2 ⟨l, key, ?_⟩
      rw [if_neg same]
      rfl

theorem hopsInto_of_successors {a : Arrival σ} {found : List (Successor σ κ)} {k : κ}
    {paths : List (Path σ)} (computed : successors b o entersFiled a.state = .ok found)
    (made : List.Forall₂ (fun a p => Arrival.path a = .ok p)
      ((found.filter fun x => KeyType.same k x.key).map a.extend) paths) :
    hopsInto b o k a.state a.steps = .ok paths := by
  obtain ⟨es, rs, tried, answers, rfl⟩ := successors_eq_ok_iff.1 computed
  have each : ∃ hops, List.Forall₂ (fun e hop => hopInto b o k a.state a.steps e = .ok hop) es hops ∧
      paths = hops.flatMap Option.toList := by
    clear tried computed
    induction answers generalizing paths with
    | nil =>
      cases made
      exact ⟨[], .nil, rfl⟩
    | cons answer _ ih =>
      rw [List.flatMap_cons, List.filter_append, List.map_append] at made
      obtain ⟨first, rest, rfl, here, further⟩ := forall₂_append_left made
      obtain ⟨hop, hopped, rfl⟩ := hopInto_of_successor? answer here
      obtain ⟨hops, all, rfl⟩ := ih further
      exact ⟨hop :: hops, .cons hopped all, rfl⟩
  obtain ⟨hops, all, rfl⟩ := each
  exact bind_eq_ok_iff.2 ⟨es, tried, bind_eq_ok_iff.2 ⟨hops, mapM_eq_ok_iff_forall₂.2 all, rfl⟩⟩

omit [LawfulKeyType κ] in
/-- Of the hops from an arrival those concern a route that lead to its node, if they are as short as its
first one. -/
theorem Route.among_hops (r : Route σ κ) (a : Arrival σ) (found : List (Successor σ κ)) :
    r.among (found.map fun x => (x.key, a.extend x)) =
      if r.first.depth = a.depth + 1 then (found.filter fun x => KeyType.same r.key x.key).map a.extend
      else [] := by
  rw [among, List.filter_map, List.map_map]
  split
  next deep =>
    refine congrArg₂ List.map rfl (List.filter_congr fun x _ => ?_)
    simp [deep]
  next other =>
    rw [List.map_eq_nil_iff, List.filter_eq_nil_iff]
    simp [other]

variable {describe : σ → Except Fault κ} {q r : Route σ κ} {paths : List (Path σ)}

theorem lastHopsFrom_of_route {plan : Plan σ} {hops : List (κ × Arrival σ)}
    (planned : q.plan describe = .ok plan) (leads : q.LeadsTo b o hops)
    (made : List.Forall₂ (fun a p => Arrival.path a = .ok p) (r.among hops) paths) :
    lastHopsFrom b o r.key r.first.depth plan = .ok paths := by
  obtain ⟨p, others, all, state, state', steps, weight⟩ := Route.paths_of_plan planned
  obtain ⟨found, computed, rfl⟩ := leads
  rw [Route.among_hops] at made
  rw [lastHopsFrom, all]
  by_cases deep : r.first.depth = q.first.depth + 1
  · rw [if_pos deep] at made
    have next : p.weight + 1 = r.first.depth := by rw [weight, deep]; rfl
    simp only [next, if_true, state, state', steps]
    exact hopsInto_of_successors computed made
  · rw [if_neg deep] at made
    have other : p.weight + 1 ≠ r.first.depth := by rw [weight]; omega
    cases made
    simp only [other, if_false]

/-- The last hops into the node of a route are what concerns it of the hops from all routes. -/
theorem lastHops_of_routes {routes : List (Route σ κ)} {plans : List (Plan σ)}
    {parts : List (List (κ × Arrival σ))}
    (planned : List.Forall₂ (fun r plan => Route.plan describe r = .ok plan) routes plans)
    (leads : List.Forall₂ (Route.LeadsTo b o) routes parts)
    (made : List.Forall₂ (fun a p => Arrival.path a = .ok p) (r.among parts.flatten) paths) :
    lastHops b o r.key r.first.depth plans = .ok paths := by
  have each : ∃ hops, List.Forall₂ (fun plan hops => lastHopsFrom b o r.key r.first.depth plan = .ok hops)
      plans hops ∧ paths = hops.flatten := by
    induction planned generalizing parts paths with
    | nil =>
      cases leads
      cases made
      exact ⟨[], .nil, rfl⟩
    | cons plan _ ih =>
      cases leads with
      | cons lead leads =>
        rw [List.flatten_cons, Route.among_append] at made
        obtain ⟨first, rest, rfl, here, further⟩ := forall₂_append_left made
        obtain ⟨hops, all, rfl⟩ := ih leads further
        exact ⟨first :: hops, .cons (lastHopsFrom_of_route plan lead here) all, rfl⟩
  obtain ⟨hops, all, rfl⟩ := each
  exact bind_eq_ok_iff.2 ⟨hops, mapM_eq_ok_iff_forall₂.2 all, rfl⟩

omit [LawfulKeyType κ] in
theorem pos_depth_of_leadsTo {routes : List (Route σ κ)} {parts : List (List (κ × Arrival σ))}
    (leads : List.Forall₂ (Route.LeadsTo b o) routes parts) : ∀ m ∈ parts.flatten, 0 < m.2.depth := by
  intro m mem
  obtain ⟨hops, hhops, mem⟩ := List.mem_flatten.1 mem
  obtain ⟨q, -, found, -, rfl⟩ := exists_left_of_forall₂ leads hhops
  obtain ⟨x, -, rfl⟩ := List.mem_map.1 mem
  exact Nat.succ_pos _

omit [LawfulKeyType κ] in
/-- The route to the initial state has no ties, since all hops are longer. -/
theorem Collects.ties_initial {routes : List (Route σ κ)} {met : List (κ × Arrival σ)} {k : κ}
    {a : Arrival σ} (h : Collects routes ((k, a) :: met)) (deeper : ∀ m ∈ met, 0 < m.2.depth)
    (mem : r ∈ routes) (initial : r.first.depth = 0) : r.ties = [] := by
  have none : r.among met = [] := by
    rw [Route.among, List.map_eq_nil_iff, List.filter_eq_nil_iff]
    intro m hm concerns
    exact absurd (deeper m hm) (by rw [← (of_decide_eq_true concerns).2, initial]; exact Nat.lt_irrefl 0)
  have collected := h.collected r mem
  rw [Route.among_cons, none] at collected
  split at collected
  · exact (List.cons.inj collected).2
  · cases collected

/-- Of the routes to other nodes none has collected the start. -/
theorem Collects.collected_elsewhere {routes : List (Route σ κ)} {met : List (κ × Arrival σ)} {k : κ}
    {a : Arrival σ} (h : Collects routes ((k, a) :: met)) (mem : r ∈ routes) (elsewhere : r.key ≠ k) :
    r.first :: r.ties = r.among met := by
  have apart : ¬ (KeyType.same r.key k ∧ r.first.depth = a.depth) :=
    fun concerns => elsewhere ((LawfulKeyType.same_iff _ _).1 concerns.1)
  rw [h.collected r mem, Route.among_cons, if_neg apart, List.nil_append]

section

variable {routes : List (Route σ κ)} {plans : List (Plan σ)} {parts : List (List (κ × Arrival σ))} {k : κ}

omit [LawfulKeyType κ] in
/-- The first plan is that of the initial state, and has the empty path only. -/
theorem first_of_routes (table : Table b o routes)
    (collects : Collects routes ((k, ⟨b.initial, []⟩) :: parts.flatten))
    (leads : List.Forall₂ (Route.LeadsTo b o) routes parts)
    (planned : List.Forall₂ (fun r plan => Route.plan describe r = .ok plan) routes plans) :
    ∃ plan rest p, plans = plan :: rest ∧ plan.state = b.initial ∧ plan.paths = [p] ∧ p.steps = [] := by
  obtain ⟨r, head, first⟩ := table.initial
  cases planned with
  | nil => cases head
  | cons plan rest =>
    cases head
    have no_ties := collects.ties_initial (pos_depth_of_leadsTo leads) List.mem_cons_self
      (by rw [first]; rfl)
    obtain ⟨paths, _, made, -, rfl⟩ := planOf_eq_ok_iff.1 plan
    rw [no_ties] at made
    cases made with
    | @cons _ p _ _ path none =>
      cases none
      obtain ⟨_, -, rfl⟩ := Arrival.path_eq_ok_iff.1 path
      exact ⟨_, _, _, rfl, by rw [first], rfl, by rw [first]; rfl⟩

/-- Every other plan has the last hops into its node that are as short as its first path. -/
theorem lastHops_of_mem_tail (table : Table b o routes) (start : o.stateKey b.initial none = .ok k)
    (collects : Collects routes ((k, ⟨b.initial, []⟩) :: parts.flatten))
    (leads : List.Forall₂ (Route.LeadsTo b o) routes parts)
    (planned : List.Forall₂ (fun r plan => Route.plan describe r = .ok plan) routes plans) :
    ∀ plan ∈ plans.tail, ∃ p ps k, plan.paths = p :: ps ∧ endKey o p.steps p.state = .ok k ∧
      lastHops b o k p.weight plans = .ok plan.paths := by
  intro plan mem
  obtain ⟨r, head, first⟩ := table.initial
  obtain ⟨rest, rfl⟩ : ∃ rest, routes = r :: rest := List.head?_eq_some_iff.1 head
  have planned_rest : List.Forall₂ (fun r plan => Route.plan describe r = .ok plan) rest plans.tail := by
    cases planned with
    | cons _ planned_rest => exact planned_rest
  obtain ⟨q, later, made⟩ := exists_left_of_forall₂ planned_rest mem
  have hq := List.mem_cons_of_mem r later
  have elsewhere : q.key ≠ k := by
    have ends := (table.sound r List.mem_cons_self _ List.mem_cons_self).ends
    rw [first] at ends
    cases start.symm.trans ends
    exact (List.rel_of_pairwise_cons table.distinct later).symm
  have ends := (table.sound q hq _ List.mem_cons_self).ends
  obtain ⟨p, others, all, -, state, steps, weight⟩ := Route.paths_of_plan made
  obtain ⟨paths, _, arrive, -, rfl⟩ := planOf_eq_ok_iff.1 made
  refine ⟨p, others, q.key, all, by rw [steps, state, ends], ?_⟩
  rw [collects.collected_elsewhere hq elsewhere] at arrive
  rw [weight]
  exact lastHops_of_routes planned leads arrive

omit [LawfulKeyType κ] in
/-- Arrivals that go on from first arrivals are paths that go on from first paths. -/
theorem sources_of_routes (grown : ∀ r ∈ routes, ∀ a ∈ r.first :: r.ties, GrownFrom b routes a)
    (planned : List.Forall₂ (fun r plan => Route.plan describe r = .ok plan) routes plans) :
    ∀ plan ∈ plans, ∀ path ∈ plan.paths, path.steps ≠ [] →
      ∃ source ∈ plans, ∃ p ps e, source.paths = p :: ps ∧ path.steps = p.steps ++ [⟨source.state, e⟩] := by
  intro plan hplan path hpath some_step
  obtain ⟨r, hr, made⟩ := exists_left_of_forall₂ planned hplan
  obtain ⟨_, _, paths, -, rfl⟩ := planOf_eq_ok_iff.1 made
  obtain ⟨a, ha, arrives⟩ := exists_left_of_forall₂ paths hpath
  obtain ⟨_, -, rfl⟩ := Arrival.path_eq_ok_iff.1 arrives
  obtain rfl | ⟨q, hq, x, rfl⟩ := grown r hr a ha
  · exact absurd rfl some_step
  · obtain ⟨source, hsource, made'⟩ := exists_right_of_forall₂ planned hq
    obtain ⟨p, others, all, state, state', steps, -⟩ := Route.paths_of_plan made'
    refine ⟨source, hsource, p, others, x.event, all, ?_⟩
    rw [steps, state, state']
    exact Arrival.steps_extend q.first x

end

theorem keepsTies_of_shortestPlans (keeps : o.keepTies = true) {tied : List (Plan σ)}
    (h : shortestPlans b o = .ok tied) : KeepsTies b o tied := by
  obtain ⟨routes, found, planned⟩ := shortestPlans_eq_ok_iff.1 h
  have table := (progress_of_shortestRoutes found).table
  have grown := (expansion_of_shortestRoutes found).grown
  obtain ⟨k, parts, start, leads, collects⟩ := collectsHops_of_shortestRoutes keeps found
  rw [List.append_nil] at table grown collects
  exact ⟨first_of_routes table collects leads planned,
    lastHops_of_mem_tail table start collects leads planned, sources_of_routes grown planned⟩

/-- With ties there are plans wherever there are some without, if the types of all events are texts. -/
theorem exists_tied (texts : TextTypes b o) {plain : List (Plan σ)}
    (h : shortestPlans b (o.keeping false) = .ok plain) :
    ∃ tied, shortestPlans b (o.keeping true) = .ok tied := by
  obtain ⟨untied, found, planned⟩ := shortestPlans_eq_ok_iff.1 h
  rw [shortestRoutes_untie] at found
  obtain ⟨routes, tied_found, rfl⟩ := exists_of_map_eq_ok found
  have sound := (progress_of_shortestRoutes tied_found).table.sound
  rw [List.append_nil] at sound
  have each : ∀ r ∈ routes, ∃ plan, r.plan (describer b (o.keeping true)) = .ok plan := by
    intro r hr
    obtain ⟨_, -, made⟩ := exists_right_of_forall₂ planned (List.mem_map_of_mem hr)
    obtain ⟨_, description, -, described, -⟩ := planOf_eq_ok_iff.1 made
    refine exists_planOf (fun a ha => ?_) ⟨description, described⟩
    exact texts.hasTexts ((sameGraph_keeping o true).symm.arrivesAt (sound r hr a ha)).admitted
  obtain ⟨tied, planned⟩ := exists_mapM_eq_ok each
  exact ⟨tied, shortestPlans_eq_ok_iff.2 ⟨routes, tied_found, mapM_eq_ok_iff_forall₂.1 planned⟩⟩

/-- **Keeping ties adds exactly the equally short last hops.** The plans with and without ties have the same
states, descriptions and first paths, in the same order. With ties, the paths of a plan are the last hops
into its node that are as short as the first one, in the order of the plans that they go on from. -/
theorem keeping_ties_adds_last_hops (b : Behavior σ κ) (o : Options σ κ) :
    (∀ tied, shortestPlans b (o.keeping true) = .ok tied →
      shortestPlans b (o.keeping false) = .ok (tied.map Plan.onlyFirst) ∧
        KeepsTies b (o.keeping true) tied) ∧
      (TextTypes b o → ∀ plain, shortestPlans b (o.keeping false) = .ok plain →
        ∃ tied, shortestPlans b (o.keeping true) = .ok tied) :=
  ⟨fun _ h => ⟨shortestPlans_onlyFirst h, keepsTies_of_shortestPlans rfl h⟩,
    fun texts _ h => exists_tied texts h⟩

/-- The carousel is stepped in two ways, so its second and third place are each reached by two last hops. -/
theorem carousel_keeping_ties :
    ∃ plain tied, shortestPlans carousel (carouselOptions.keeping false) = .ok plain ∧
      shortestPlans carousel (carouselOptions.keeping true) = .ok tied ∧ plain = tied.map Plan.onlyFirst ∧
      tied.map (fun plan => plan.paths.map Path.description) =
        [["via initial state"], ["via step", "via step"], ["via skip"],
          ["via step -> step", "via step -> step"]] ∧
      KeepsTies carousel (carouselOptions.keeping true) tied := by
  obtain ⟨adds, answers⟩ := keeping_ties_adds_last_hops carousel carouselOptions
  obtain ⟨plain, made, -⟩ := exists_carousel_shortestPlans
  obtain ⟨tied, made'⟩ := answers carousel_textTypes plain made
  obtain ⟨first, keeps⟩ := adds tied made'
  have shown : (shortestPlans carousel (carouselOptions.keeping true)).map
      (fun plans => plans.map fun plan => plan.paths.map Path.description) =
        .ok [["via initial state"], ["via step", "via step"], ["via skip"],
          ["via step -> step", "via step -> step"]] := by rfl
  rw [made'] at shown
  exact ⟨_, tied, first, made', rfl, Except.ok.inj shown, keeps⟩

end

end Search

end StateWalk
