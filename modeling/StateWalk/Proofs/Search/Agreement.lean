import StateWalk.Proofs.Search.SameGraph
import StateWalk.Proofs.Search.Soundness

/-!
# The two searches agree

Where nodes determine what follows, steps to a node can be cut short until they meet no node twice: if
the next node has been met already, the steps up to there do as well (`exists_acyclic_le`). So the
depth-first search, which only follows acyclic steps, makes plans for the nodes that the breadth-first
search finds, and the first path of such a plan is as short as any steps to the node.
-/

namespace StateWalk.Search

open Outcome

variable {σ κ : Type} {b : Behavior σ κ} {o : Options σ κ}

/-- The plans are for the same nodes, and those for one node begin with paths of one weight, which no
path of the simple plan falls short of. -/
structure PlansAgree (b : Behavior σ κ) (o : Options σ κ) (shortest simple : List (Plan σ)) : Prop where
  nodes : ∀ k, (∃ plan ∈ shortest, plan.ForNode b o k) ↔ ∃ plan ∈ simple, plan.ForNode b o k
  weights : ∀ k, ∀ plan ∈ shortest, ∀ plan' ∈ simple, plan.ForNode b o k → plan'.ForNode b o k →
    ∃ p others p' others', plan.paths = p :: others ∧ plan'.paths = p' :: others' ∧
      p'.weight = p.weight ∧ ∀ q ∈ plan'.paths, p.weight ≤ q.weight

/-! ## Cutting steps short -/

theorem Acyclic.admitted {steps : List (Step σ)} {s : σ} {nodes : List κ}
    (h : Acyclic b o steps s nodes) : Admitted b o steps s := by
  induction h with
  | initial _ => exact .initial
  | send _ sent _ _ ih => exact .send ih sent

/-- Every node that acyclic steps meet is one that their first steps end at. -/
theorem Acyclic.exists_ending {steps : List (Step σ)} {s : σ} {nodes : List κ}
    (h : Acyclic b o steps s nodes) {k : κ} (hk : k ∈ nodes) :
    ∃ steps' s' nodes', Acyclic b o steps' s' nodes' ∧ endKey o steps' s' = .ok k ∧
      steps'.length ≤ steps.length := by
  induction h with
  | @initial key initial =>
    rw [List.mem_singleton] at hk
    subst hk
    exact ⟨[], _, _, .initial initial, initial, Nat.le_refl _⟩
  | @send steps s t nodes e key before sent here new ih =>
    rcases List.mem_cons.1 hk with rfl | hk
    · refine ⟨_, t, _, .send before sent here new, ?_, Nat.le_refl _⟩
      rw [endKey, lastEvent_concat]
      exact here
    · obtain ⟨steps', s', nodes', acyclic, ends, short⟩ := ih hk
      refine ⟨steps', s', nodes', acyclic, ends, short.trans ?_⟩
      rw [List.length_append]
      exact Nat.le_add_right _ _

/-- For admitted steps there are acyclic ones to the same node that are not more. -/
theorem exists_acyclic_le (alike : NodesDetermine b o)
    (keyed : ∀ steps s, Admitted b o steps s → ∃ k, endKey o steps s = .ok k)
    {steps : List (Step σ)} {s : σ} (h : Admitted b o steps s) {k : κ} (ends : endKey o steps s = .ok k) :
    ∃ steps' s' nodes, Acyclic b o steps' s' nodes ∧ endKey o steps' s' = .ok k ∧
      steps'.length ≤ steps.length := by
  induction h generalizing k with
  | initial => exact ⟨[], _, _, .initial ends, ends, Nat.le_refl _⟩
  | @send steps s t e before sent ih =>
    obtain ⟨l, ends_before⟩ := keyed _ _ before
    obtain ⟨steps', s', nodes, acyclic, ends', short⟩ := ih ends_before
    obtain ⟨e', t', sent', key'⟩ := alike before ends_before acyclic.admitted ends' e t sent
    rw [endKey, lastEvent_concat] at ends
    have here : o.stateKey t' (some e') = .ok k := key'.trans ends
    rw [List.length_append, List.length_singleton]
    by_cases met : k ∈ nodes
    · obtain ⟨steps'', s'', nodes'', acyclic'', ends'', short''⟩ := acyclic.exists_ending met
      exact ⟨steps'', s'', nodes'', acyclic'', ends'', by omega⟩
    · refine ⟨_, t', _, .send acyclic sent' here met, ?_, ?_⟩
      · rw [endKey, lastEvent_concat]
        exact here
      · rw [List.length_append, List.length_singleton]
        exact Nat.succ_le_succ short

/-! ## First paths -/

/-- The first path of a simple plan is not longer than any acyclic steps to the node. -/
theorem SimplePlanFor.weight_le {k : κ} {plan : Plan σ} (h : SimplePlanFor b o k plan) {p : Path σ}
    {others : List (Path σ)} (first : plan.paths = p :: others) {steps : List (Step σ)} {s : σ}
    {nodes : List κ} (acyclic : Acyclic b o steps s nodes) (ends : endKey o steps s = .ok k) :
    p.weight ≤ steps.length := by
  obtain ⟨q, hq, types⟩ := h.complete steps s nodes acyclic ends
  have weight : q.weight = steps.length := by
    have same : q.steps.length = steps.length := by simpa [typesOf] using congrArg List.length types
    rw [(h.acyclic q hq).2.1, same]
  obtain ⟨rows, paths, -, ordered⟩ := h.firsts
  have lightest : (p :: others).Pairwise fun p q => p.weight ≤ q.weight := by
    rw [← first, ← paths, List.pairwise_map]
    refine ordered.imp fun {row row'} earlier => ?_
    obtain lighter | ⟨tie, -⟩ := earlier
    · exact Int.le_of_lt lighter
    · exact Int.le_of_eq tie
  rw [first] at hq
  rcases List.mem_cons.1 hq with rfl | hq
  · exact Int.le_of_eq weight
  · exact weight ▸ (List.pairwise_cons.1 lightest).1 q hq

theorem ShortestTo.forNode_key {k l : κ} {plan : Plan σ} (h : ShortestTo b o k plan)
    (forNode : plan.ForNode b o l) : k = l := by
  obtain ⟨p, others, paths, -, -, ends, -⟩ := h
  have ends' := forNode.endKey_path p (paths ▸ List.mem_cons_self)
  exact Except.ok.inj (ends.symm.trans ends')

theorem SimplePlanFor.forNode_key {k l : κ} {plan : Plan σ} (h : SimplePlanFor b o k plan)
    (forNode : plan.ForNode b o l) : k = l := by
  obtain ⟨p, others, paths, -⟩ := forNode.first
  have mem : p ∈ plan.paths := paths ▸ List.mem_cons_self
  exact Except.ok.inj ((h.acyclic p mem).2.2.2.symm.trans (forNode.endKey_path p mem))

/-- A plan that is shortest to a node and one that holds the acyclic paths to it begin with paths of one
weight, and no path of the latter falls short of that. -/
theorem ShortestTo.weights_agree {o' : Options σ κ} (same : SameGraph o o') (alike : NodesDetermine b o)
    (keyed : ∀ steps s, Admitted b o steps s → ∃ k, endKey o steps s = .ok k) {k : κ}
    {plan plan' : Plan σ} (h : ShortestTo b o k plan) (h' : SimplePlanFor b o' k plan')
    (some_path : plan'.paths ≠ []) :
    ∃ p others p' others', plan.paths = p :: others ∧ plan'.paths = p' :: others' ∧
      p'.weight = p.weight ∧ ∀ q ∈ plan'.paths, p.weight ≤ q.weight := by
  obtain ⟨p, others, paths, -, admitted, ends, weight, least⟩ := h
  obtain ⟨p', others', paths'⟩ := List.exists_cons_of_ne_nil some_path
  have at_least : ∀ q ∈ plan'.paths, p.weight ≤ q.weight := by
    intro q hq
    obtain ⟨-, weight', ⟨nodes, acyclic⟩, ends'⟩ := h'.acyclic q hq
    rw [weight']
    exact least q.steps q.state (same.symm.acyclic acyclic).admitted (by rw [← same.endKey_eq, ends'])
  -- the shortest path, cut short, is among the acyclic ones, which do not fall short of the first
  obtain ⟨steps, s, nodes, acyclic, ends', short⟩ := exists_acyclic_le alike keyed admitted ends
  have at_most : p'.weight ≤ steps.length :=
    h'.weight_le paths' (same.acyclic acyclic) (by rw [same.endKey_eq, ends'])
  refine ⟨p, others, p', others', paths, paths', ?_, at_least⟩
  have := at_least p' (paths' ▸ List.mem_cons_self)
  omega

section

variable [KeyType κ] [LawfulKeyType κ]

/-! ## The plans of each search -/

/-- Every plan of a breadth-first search is for a node, and shortest to it. -/
theorem exists_shortestTo_of_mem {plans : List (Plan σ)} (alike : NodesDetermine b o)
    (h : shortestPlans b o = .ok plans) {plan : Plan σ} (hplan : plan ∈ plans) :
    ∃ k, plan.ForNode b o k ∧ ShortestTo b o k plan := by
  obtain ⟨routes, found, made⟩ := shortestPlans_eq_ok_iff.1 h
  have progress := progress_of_shortestRoutes found
  obtain ⟨r, hr, made⟩ := exists_left_of_forall₂ made hplan
  have sound := progress.table.sound r (List.mem_append_left _ hr)
  exact ⟨r.key, forNode_of_planOf made sound, progress.shortestTo alike hr made⟩

/-- Admitted steps have a node, and the node a plan. -/
theorem exists_shortestPlan {plans : List (Plan σ)} (alike : NodesDetermine b o)
    (h : shortestPlans b o = .ok plans) {steps : List (Step σ)} {s : σ} (admitted : Admitted b o steps s) :
    ∃ k, endKey o steps s = .ok k ∧ ∃ plan ∈ plans, plan.ForNode b o k := by
  obtain ⟨routes, found, made⟩ := shortestPlans_eq_ok_iff.1 h
  have progress := progress_of_shortestRoutes found
  obtain ⟨r, hr, ends, -⟩ := progress.exists_route alike admitted
  obtain ⟨plan, hplan, made⟩ := exists_right_of_forall₂ made hr
  have sound := progress.table.sound r (List.mem_append_left _ hr)
  exact ⟨r.key, ends, plan, hplan, forNode_of_planOf made sound⟩

/-- Every plan of a depth-first search is for a node, and holds the acyclic paths to it. -/
theorem exists_simplePlanFor_of_mem {plans : List (Plan σ)} (h : simplePlans b o = .ok plans)
    {plan : Plan σ} (hplan : plan ∈ plans) : ∃ k, plan.ForNode b o k ∧ SimplePlanFor b o k plan := by
  obtain ⟨visits, groups, run, grouped, made⟩ := simplePlans_eq_ok h
  obtain ⟨g, hg, some_arrival, made⟩ := exists_left_of_forall₂ made hplan
  rw [grouped.arrivals g hg] at some_arrival made
  refine ⟨g.1, forNode_of_simplePlan? ?_ some_arrival made,
    simplePlanFor_of_simplePlan? run some_arrival made⟩
  intro a ha
  obtain ⟨v, hv, key, rfl⟩ := mem_arrivalsAt_iff.1 ha
  exact key ▸ at_of_mem_simpleVisits run v hv

/-- The node of acyclic steps has a plan. -/
theorem exists_simplePlan {plans : List (Plan σ)} (h : simplePlans b o = .ok plans)
    {steps : List (Step σ)} {s : σ} {nodes : List κ} (acyclic : Acyclic b o steps s nodes) {k : κ}
    (ends : endKey o steps s = .ok k) : ∃ plan ∈ plans, plan.ForNode b o k := by
  obtain ⟨visits, run, -⟩ := bind_eq_ok_iff.1 h
  obtain ⟨keys, met, forNodes⟩ := forNodes_of_simplePlans run h
  have mem : k ∈ keys :=
    (met.mem_iff k).2 ((mem_keys_iff_exists_acyclic run k).2 ⟨steps, s, nodes, acyclic, ends⟩)
  exact exists_right_of_forall₂ forNodes mem

/-- **The two searches agree.** They make plans for the same nodes, and the plans for one node begin with
paths of one length, so that no path of the simple plan is shorter than the shortest one. -/
theorem shortest_and_simple_plans_agree {o' : Options σ κ} {shortest simple : List (Plan σ)}
    (same : SameGraph o o') (alike : NodesDetermine b o) (h : shortestPlans b o = .ok shortest)
    (h' : simplePlans b o' = .ok simple) : PlansAgree b o shortest simple := by
  have keyed : ∀ steps s, Admitted b o steps s → ∃ k, endKey o steps s = .ok k := by
    intro steps s admitted
    obtain ⟨k, ends, -⟩ := exists_shortestPlan alike h admitted
    exact ⟨k, ends⟩
  refine ⟨fun k => ⟨?_, ?_⟩, ?_⟩
  · rintro ⟨plan, -, forNode⟩
    obtain ⟨a, arrives⟩ := forNode.exists_arrival
    obtain ⟨steps, s, nodes, acyclic, ends, -⟩ :=
      exists_acyclic_le alike keyed arrives.admitted arrives.ends
    obtain ⟨plan', hplan', forNode'⟩ :=
      exists_simplePlan h' (same.acyclic acyclic) (by rw [same.endKey_eq, ends])
    exact ⟨plan', hplan', same.symm.forNode forNode'⟩
  · rintro ⟨plan', -, forNode'⟩
    obtain ⟨a, arrives⟩ := forNode'.exists_arrival
    obtain ⟨l, ends, plan, hplan, forNode⟩ := exists_shortestPlan alike h arrives.admitted
    cases ends.symm.trans arrives.ends
    exact ⟨plan, hplan, forNode⟩
  · intro k plan hplan plan' hplan' forNode forNode'
    obtain ⟨l, -, shortestTo⟩ := exists_shortestTo_of_mem alike h hplan
    obtain ⟨l', -, simpleFor⟩ := exists_simplePlanFor_of_mem h' hplan'
    obtain rfl := shortestTo.forNode_key forNode
    obtain rfl := simpleFor.forNode_key (same.forNode forNode')
    obtain ⟨p, others, paths, -⟩ := forNode'.first
    exact shortestTo.weights_agree same alike keyed simpleFor (by simp [paths])

/-- The carousel's plans with all ties: the second place is reached by either of the two steps. The
depth-first search has the same four nodes, at eleven visits. -/
theorem carousel_plans_agree :
    ∃ shortest simple,
      shortestPlans carousel { carouselOptions with limit := some 4, keepTies := true } = .ok shortest ∧
      shortest.map (fun plan => plan.paths.map Path.description) =
        [["via initial state"], ["via step", "via step"], ["via skip"],
          ["via step -> step", "via step -> step"]] ∧
      simplePlans carousel carouselOptions = .ok simple ∧
      simple.map (fun plan => plan.paths.map Path.description) =
        [["via initial state"], ["via step", "via skip -> skip"],
          ["via step -> step", "via skip -> skip -> step"], ["via skip"]] ∧
      PlansAgree carousel { carouselOptions with limit := some 4, keepTies := true } shortest simple := by
  have tied : (shortestPlans carousel { carouselOptions with limit := some 4, keepTies := true }).map
      (fun plans => plans.map fun plan => plan.paths.map Path.description) =
        .ok [["via initial state"], ["via step", "via step"], ["via skip"],
          ["via step -> step", "via step -> step"]] := by rfl
  obtain ⟨shortest, made, shown⟩ := exists_of_map_eq_ok tied
  obtain ⟨simple, made', shown'⟩ := exists_carousel_simplePlans
  have same : SameGraph carouselOptions { carouselOptions with limit := some 4, keepTies := true } :=
    ⟨rfl, rfl, rfl⟩
  exact ⟨shortest, simple, made, shown, made', shown',
    shortest_and_simple_plans_agree same.symm (same.nodesDetermine carousel_nodesDetermine) made made'⟩

end

end StateWalk.Search
