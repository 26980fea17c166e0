import Mathlib
import StateWalk.Proofs.Search.Choices
import StateWalk.Proofs.Search.Grouping
import StateWalk.Proofs.Search.Signatures

/-!
# Visits and plans of a depth-first search

The visits made are those of the recursion, which are all routes without a repeated node in pre-order.
Each visit arrives at its node by admitted steps, so the groups of arrivals become plans for nodes, and
the plans stand in the order in which the visits met their nodes first.
-/

namespace StateWalk.Search

open Outcome

variable {σ κ : Type} {b : Behavior σ κ} {o : Options σ κ}

theorem FollowsBy.at {v u : Visit σ κ} {e : Event} (h : FollowsBy b o v e u)
    (tried : Tries b o v.arrival.state e) (here : v.arrival.At b o v.key) : u.arrival.At b o u.key := by
  have sent := h.sends tried
  cases h with
  | @toward t k _ _ key => exact Arrival.At.extend (x := ⟨e, t, k⟩) here.admitted sent key

/-- Choices lead from an arrival by admitted steps to another one. -/
theorem Leads.at {v w : Visit σ κ} {choices : List Nat} (h : Leads b o v choices w)
    (here : v.arrival.At b o v.key) : w.arrival.At b o w.key :=
  h.preserves (P := fun v => v.arrival.At b o v.key) (fun _ _ _ tried follows => follows.at tried) here

section

variable [KeyType κ]

theorem mem_arrivalsAt_iff [LawfulKeyType κ] {visits : List (Visit σ κ)} {k : κ} {a : Arrival σ} :
    a ∈ arrivalsAt visits k ↔ ∃ v ∈ visits, v.key = k ∧ v.arrival = a := by
  simp [arrivalsAt, LawfulKeyType.same_iff, and_assoc]

theorem byDepth_perm (arrivals : List (Arrival σ)) : (byDepth arrivals).Perm arrivals :=
  List.mergeSort_perm _ _

theorem forNode_of_simplePlan? {k : κ} {describe : σ → Except Fault κ} {arrivals : List (Arrival σ)}
    {plan : Plan σ} (at_node : ∀ a ∈ arrivals, a.At b o k) (some_arrival : arrivals ≠ [])
    (h : simplePlan? describe arrivals = .ok (some plan)) : plan.ForNode b o k := by
  obtain ⟨first, others, full, _, sorted, made, kept, eq⟩ := simplePlan?_eq_ok some_arrival h
  cases eq
  refine Plan.ForNode.distinctSignatures (forNode_of_planOf made fun a ha => ?_) kept
  exact at_node a ((byDepth_perm arrivals).mem_iff.1 (sorted ▸ ha))

variable [LawfulKeyType κ]

theorem inPreorder_of_simpleVisits {visits : List (Visit σ κ)} (h : simpleVisits b o = .ok visits) :
    ∃ key, o.stateKey b.initial none = .ok key ∧ InPreorder b o (Visit.start b key) visits := by
  obtain ⟨key, depth, initial, run, -⟩ := simpleVisits_eq_ok_iff.1 h
  exact ⟨key, initial, explored_inPreorder (List.pairwise_singleton _ key) run⟩

theorem at_of_mem_simpleVisits {visits : List (Visit σ κ)} (h : simpleVisits b o = .ok visits) :
    ∀ v ∈ visits, v.arrival.At b o v.key := by
  obtain ⟨key, initial, table, rfl, -, members⟩ := inPreorder_of_simpleVisits h
  intro v hv
  obtain ⟨⟨choices, _⟩, mem, rfl⟩ := List.mem_map.1 hv
  exact ((members _ _).1 mem).1.at (Arrival.at_initial initial)

/-- There is one plan for every group of visits. -/
theorem simplePlans_eq_ok {plans : List (Plan σ)} (h : simplePlans b o = .ok plans) :
    ∃ visits groups, simpleVisits b o = .ok visits ∧ Grouped visits groups ∧
      List.Forall₂ (fun g plan => g.2 ≠ [] ∧ simplePlan? (describer b o) g.2 = .ok (some plan))
        groups plans := by
  obtain ⟨visits, run, made⟩ := bind_eq_ok_iff.1 h
  have grouped := grouped_arrivalsByNode visits
  have some_arrival : ∀ g ∈ arrivalsByNode visits, g.2 ≠ [] := by
    intro g hg
    rw [grouped.arrivals g hg, ne_eq, arrivalsAt_eq_nil_iff, not_not, ← grouped.nodes.mem_iff]
    exact List.mem_map_of_mem hg
  refine ⟨visits, _, run, grouped, ?_⟩
  exact (List.forall₂_and_left _ _).2 ⟨some_arrival, simplePlansOf_eq_ok some_arrival made⟩

/-- The plans are for nodes, in the order in which the visits met the nodes first. -/
theorem forNodes_of_simplePlans {visits : List (Visit σ κ)} {plans : List (Plan σ)}
    (run : simpleVisits b o = .ok visits) (h : simplePlans b o = .ok plans) :
    ∃ keys, FirstMet (visits.map Visit.key) keys ∧ List.Forall₂ (Plan.ForNode b o) keys plans := by
  obtain ⟨_, groups, run', grouped, made⟩ := simplePlans_eq_ok h
  cases run.symm.trans run'
  refine ⟨groups.map Prod.fst, grouped.nodes, forall₂_map_left made ?_⟩
  intro g hg plan ⟨some_arrival, made⟩
  refine forNode_of_simplePlan? (fun a ha => ?_) some_arrival made
  rw [grouped.arrivals g hg, mem_arrivalsAt_iff] at ha
  obtain ⟨v, hv, key, rfl⟩ := ha
  exact key ▸ at_of_mem_simpleVisits run v hv

/-- **The stack of a depth-first search is its recursion.** -/
theorem simpleVisits_refine_explored (b : Behavior σ κ) (o : Options σ κ) (visits : List (Visit σ κ)) :
    (simpleVisits b o = .ok visits ↔ ∃ key depth, o.stateKey b.initial none = .ok key ∧
      explored b o depth (Visit.start b key) = .ok visits ∧ visits.length ≤ o.budget) ∧
    (simpleVisits b o = .ok visits →
      (∃ key, o.stateKey b.initial none = .ok key ∧ InPreorder b o (Visit.start b key) visits) ∧
      ∀ plans, simplePlans b o = .ok plans →
        ∃ keys, FirstMet (visits.map Visit.key) keys ∧ List.Forall₂ (Plan.ForNode b o) keys plans) := by
  refine ⟨simpleVisits_eq_ok_iff, fun run => ⟨inPreorder_of_simpleVisits run, fun plans made => ?_⟩⟩
  exact forNodes_of_simplePlans run made

/-- Eleven visits of the carousel become six paths, since some routes to a node have the same event
types. -/
theorem exists_carousel_simplePlans :
    ∃ plans, simplePlans carousel carouselOptions = .ok plans ∧
      plans.map (fun plan => plan.paths.map Path.description) =
        [["via initial state"], ["via step", "via skip -> skip"],
          ["via step -> step", "via skip -> skip -> step"], ["via skip"]] := by
  refine exists_of_map_eq_ok ?_
  cbv

/-- The third place without a skip is visited six times, and its plan is the third one. -/
theorem carousel_visits_refine_explored :
    ∃ visits plans, simpleVisits carousel carouselOptions = .ok visits ∧
      simplePlans carousel carouselOptions = .ok plans ∧
      visits.map Visit.key = ["first", "second", "third", "third", "third, skipped", "second", "third",
        "third", "second", "third", "third"] ∧
      (∃ key depth, carouselOptions.stateKey carousel.initial none = .ok key ∧
        explored carousel carouselOptions depth (Visit.start carousel key) = .ok visits ∧
        visits.length ≤ carouselOptions.budget) ∧
      (∃ key, carouselOptions.stateKey carousel.initial none = .ok key ∧
        InPreorder carousel carouselOptions (Visit.start carousel key) visits) ∧
      ∃ keys, FirstMet (visits.map Visit.key) keys ∧
        List.Forall₂ (Plan.ForNode carousel carouselOptions) keys plans := by
  have visited : (simpleVisits carousel carouselOptions).map (List.map Visit.key) =
      .ok ["first", "second", "third", "third", "third, skipped", "second", "third", "third",
        "second", "third", "third"] := by cbv
  obtain ⟨visits, run, shown⟩ := exists_of_map_eq_ok visited
  obtain ⟨plans, made, -⟩ := exists_carousel_simplePlans
  obtain ⟨recursion, order⟩ := simpleVisits_refine_explored carousel carouselOptions visits
  exact ⟨visits, plans, run, made, shown, recursion.1 run, (order run).1, (order run).2 plans made⟩

end

end StateWalk.Search
