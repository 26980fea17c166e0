import Mathlib.Data.List.Nodup
import StateWalk.Assertion
import StateWalk.Proofs.Search.Breadth

/-!
# Shortest plans are complete and shortest

Where the node of a state determines what can be sent in it, the plans of the breadth-first search are
those of the nodes that admitted steps end at, one for each, and no admitted steps to a node are fewer
than those of its plan's first path.

The search expands one state of every node only. `Progress.exists_route` carries what it finds over to
the other states of the node, by induction on the admitted steps.
-/

namespace StateWalk.Search

open Outcome Assertion

variable {σ κ : Type} {b : Behavior σ κ} {o : Options σ κ}

/-- The plan's first path is by admitted steps to the node, and no other admitted steps to it are
fewer. -/
def ShortestTo (b : Behavior σ κ) (o : Options σ κ) (k : κ) (plan : Plan σ) : Prop :=
  ∃ p others, plan.paths = p :: others ∧ plan.state = p.state ∧
    Admitted b o p.steps p.state ∧ endKey o p.steps p.state = .ok k ∧ p.weight = p.steps.length ∧
    ∀ steps s, Admitted b o steps s → endKey o steps s = .ok k → p.weight ≤ steps.length

/-- The plans are those of the nodes that admitted steps end at, each with a shortest path first, and
stand in the order of these paths. -/
structure CompleteAndShortest (b : Behavior σ κ) (o : Options σ κ) (plans : List (Plan σ)) : Prop where
  nodes : ∃ keys : List κ, keys.Nodup ∧
    (∀ k, k ∈ keys ↔ ∃ steps s, Admitted b o steps s ∧ endKey o steps s = .ok k) ∧
    List.Forall₂ (ShortestTo b o) keys plans
  ordered : (firstWeights plans).Pairwise (· ≤ ·)
  /-- The initial state comes first, whatever the filter says of it. -/
  initial : ∃ plan rest p others, plans = plan :: rest ∧ plan.paths = p :: others ∧
    plan.state = b.initial ∧ p.steps = []

/-- Admitted steps end at a node that has a route, and the route is not longer than they are. -/
theorem Progress.exists_route {routes : List (Route σ κ)} (h : Progress b o routes [])
    (alike : NodesDetermine b o) {steps : List (Step σ)} {s : σ} (admitted : Admitted b o steps s) :
    ∃ r ∈ routes, endKey o steps s = .ok r.key ∧ r.first.depth ≤ steps.length := by
  induction admitted with
  | initial =>
    obtain ⟨r, hr, first⟩ := h.table.initial
    have mem : r ∈ routes ++ [] := List.mem_of_mem_head? hr
    have ends := (h.table.sound r mem _ List.mem_cons_self).ends
    rw [first] at ends
    exact ⟨r, by simpa using mem, ends, by rw [first]; exact Nat.le_refl _⟩
  | @send steps s t e before sent ih =>
    obtain ⟨r, hr, ends, depth⟩ := ih
    have held := h.table.sound r (List.mem_append_left _ hr) _ List.mem_cons_self
    obtain ⟨e', t', sent', key'⟩ := alike before ends held.admitted held.ends e t sent
    obtain ⟨r', hr', key, depth'⟩ := h.closed r hr e' t' sent'
    refine ⟨r', by simpa using hr', ?_, ?_⟩
    · rw [endKey, lastEvent_concat, ← key', key]
    · rw [List.length_append, List.length_singleton]
      omega

/-- A search that ended has met the nodes that admitted steps end at. -/
theorem Progress.mem_keys_iff {routes : List (Route σ κ)} (h : Progress b o routes [])
    (alike : NodesDetermine b o) (k : κ) :
    k ∈ routes.map Route.key ↔ ∃ steps s, Admitted b o steps s ∧ endKey o steps s = .ok k := by
  constructor
  · intro hk
    obtain ⟨r, hr, rfl⟩ := List.mem_map.1 hk
    have held := h.table.sound r (List.mem_append_left _ hr) _ List.mem_cons_self
    exact ⟨_, _, held.admitted, held.ends⟩
  · rintro ⟨steps, s, admitted, ends⟩
    obtain ⟨r, hr, ends', -⟩ := h.exists_route alike admitted
    cases ends.symm.trans ends'
    exact List.mem_map_of_mem hr

/-- No admitted steps to the node of a route are fewer than those of its first arrival. -/
theorem Progress.depth_le {routes : List (Route σ κ)} (h : Progress b o routes [])
    (alike : NodesDetermine b o) {r : Route σ κ} (hr : r ∈ routes) {steps : List (Step σ)} {s : σ}
    (admitted : Admitted b o steps s) (ends : endKey o steps s = .ok r.key) :
    r.first.depth ≤ steps.length := by
  obtain ⟨q, hq, ends', depth⟩ := h.exists_route alike admitted
  have same : q.key = r.key := Except.ok.inj (ends'.symm.trans ends)
  have distinct : (routes.map Route.key).Nodup := List.pairwise_map.2 (by simpa using h.table.distinct)
  have eq : q = r := List.inj_on_of_nodup_map distinct hq hr same
  exact eq ▸ depth

section

variable [KeyType κ]

theorem shortestPlans_eq_ok_iff {plans : List (Plan σ)} :
    shortestPlans b o = .ok plans ↔ ∃ routes, shortestRoutes b o = .ok routes ∧
      List.Forall₂ (fun r plan => Route.plan (describer b o) r = .ok plan) routes plans := by
  simp only [shortestPlans, bind_eq_ok_iff, mapM_eq_ok_iff_forall₂]

variable {describe : σ → Except Fault κ}

theorem Route.paths_of_plan {r : Route σ κ} {plan : Plan σ} (h : r.plan describe = .ok plan) :
    ∃ p others, plan.paths = p :: others ∧ plan.state = p.state ∧ p.state = r.first.state ∧
      p.steps = r.first.steps ∧ p.weight = r.first.depth := by
  obtain ⟨paths, description, made, -, rfl⟩ := planOf_eq_ok_iff.1 h
  cases made with
  | cons path _ =>
    obtain ⟨text, -, rfl⟩ := Arrival.path_eq_ok_iff.1 path
    exact ⟨_, _, rfl, rfl, rfl, rfl, rfl⟩

theorem Progress.shortestTo {routes : List (Route σ κ)} (h : Progress b o routes [])
    (alike : NodesDetermine b o) {r : Route σ κ} (hr : r ∈ routes) {plan : Plan σ}
    (made : r.plan describe = .ok plan) : ShortestTo b o r.key plan := by
  have held := h.table.sound r (List.mem_append_left _ hr) _ List.mem_cons_self
  obtain ⟨p, others, paths, state, state', steps, weight⟩ := Route.paths_of_plan made
  refine ⟨p, others, paths, state, ?_, ?_, ?_, ?_⟩
  · rw [steps, state']
    exact held.admitted
  · rw [steps, state']
    exact held.ends
  · rw [weight, steps, Arrival.length_steps]
  · intro steps s admitted ends
    rw [weight]
    exact_mod_cast h.depth_le alike hr admitted ends

theorem firstWeights_of_routes {routes : List (Route σ κ)} {plans : List (Plan σ)}
    (h : List.Forall₂ (fun r plan => Route.plan describe r = .ok plan) routes plans) :
    firstWeights plans = routes.map fun r => (r.first.depth : Int) := by
  induction h with
  | nil => rfl
  | cons made _ ih =>
    obtain ⟨p, others, paths, -, -, -, weight⟩ := Route.paths_of_plan made
    simp only [firstWeights, List.map_cons] at ih ⊢
    rw [List.filterMap_cons, paths, ← ih, ← weight]
    rfl

/-- **Shortest plans are complete and shortest.** -/
theorem shortestPlans_complete_and_shortest [LawfulKeyType κ] {plans : List (Plan σ)}
    (alike : NodesDetermine b o) (h : shortestPlans b o = .ok plans) :
    CompleteAndShortest b o plans := by
  obtain ⟨routes, found, made⟩ := shortestPlans_eq_ok_iff.1 h
  have progress := progress_of_shortestRoutes found
  have table : Table b o routes := List.append_nil routes ▸ progress.table
  refine ⟨⟨routes.map Route.key, List.pairwise_map.2 table.distinct, progress.mem_keys_iff alike, ?_⟩,
    ?_, ?_⟩
  · exact forall₂_map_left made fun r hr plan made => progress.shortestTo alike hr made
  · rw [firstWeights_of_routes made, List.pairwise_map]
    exact table.ordered.imp fun depth => by exact_mod_cast depth
  · obtain ⟨r, hr, first⟩ := table.initial
    cases made with
    | nil => cases hr
    | cons made _ =>
      cases hr
      obtain ⟨p, others, paths, state, state', steps, -⟩ := Route.paths_of_plan made
      refine ⟨_, _, p, others, rfl, paths, ?_, ?_⟩
      · rw [state, state', first]
      · rw [steps, first]
        rfl

/-- The carousel's states are infinitely many, but it has four nodes. -/
theorem exists_carousel_shortestPlans :
    ∃ plans, shortestPlans carousel carouselOptions = .ok plans ∧
      plans.map (fun plan => plan.paths.map Path.description) =
        [["via initial state"], ["via step"], ["via skip"], ["via step -> step"]] := by
  refine exists_of_map_eq_ok ?_
  rfl

/-- The first place has a plan, although it fails the filter, and the third place has two. -/
theorem carousel_complete_and_shortest :
    ∃ plans, shortestPlans carousel carouselOptions = .ok plans ∧
      plans.map (fun plan => plan.paths.map Path.description) =
        [["via initial state"], ["via step"], ["via skip"], ["via step -> step"]] ∧
      NodesDetermine carousel carouselOptions ∧
      CompleteAndShortest carousel carouselOptions plans := by
  obtain ⟨plans, made, shown⟩ := exists_carousel_shortestPlans
  exact ⟨plans, made, shown, carousel_nodesDetermine,
    shortestPlans_complete_and_shortest carousel_nodesDetermine made⟩

end

end StateWalk.Search
