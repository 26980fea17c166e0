import Mathlib
import StateWalk.Proofs.Search.Agreement
import StateWalk.Proofs.Search.Limit

/-!
# Searches of finitely many nodes end

Neither search needs a limit where admitted steps end at finitely many nodes, even if these stand for
infinitely many states (`searches_end_on_finitely_many_nodes`).

The breadth-first search has one route for each node that it has found, so what it has expanded and what
waits are never more than the nodes. The depth-first search may come to a node on many routes, but none of
them meets a node twice. So a route has fewer steps than there are nodes, and the recursion that the stack
stands for goes no deeper.
-/

namespace StateWalk.Search

open Outcome

variable {σ κ : Type} {b : Behavior σ κ} {o : Options σ κ} {nodes : Finset κ}

/-- The nodes that admitted steps end at are among these. -/
def EndsAmong (b : Behavior σ κ) (o : Options σ κ) (nodes : Finset κ) : Prop :=
  ∀ {steps : List (Step σ)} {s : σ} {k : κ}, Admitted b o steps s → endKey o steps s = .ok k → k ∈ nodes

/-! ## One route for each node -/

theorem Table.length_le {routes : List (Route σ κ)} (h : Table b o routes) (among : EndsAmong b o nodes) :
    routes.length ≤ nodes.card := by
  classical
  have distinct : (routes.map Route.key).Nodup := List.pairwise_map.2 h.distinct
  have inside : (routes.map Route.key).toFinset ⊆ nodes := by
    intro k hk
    obtain ⟨r, hr, rfl⟩ := List.mem_map.1 (List.mem_toFinset.1 hk)
    have arrives := h.sound r hr r.first List.mem_cons_self
    exact among arrives.admitted arrives.ends
  have card := Finset.card_le_card inside
  rwa [List.toFinset_card_of_nodup distinct, List.length_map] at card

/-! ## No route meets a node twice -/

theorem Acyclic.length_eq {steps : List (Step σ)} {s : σ} {met : List κ} (h : Acyclic b o steps s met) :
    met.length = steps.length + 1 := by
  induction h with
  | initial _ => rfl
  | send _ _ _ _ ih => simp [ih]

theorem Acyclic.length_le {steps : List (Step σ)} {s : σ} {met : List κ} (h : Acyclic b o steps s met)
    (among : EndsAmong b o nodes) : met.length ≤ nodes.card := by
  classical
  have inside : met.toFinset ⊆ nodes := by
    intro k hk
    obtain ⟨_, _, _, before, ends, -⟩ := h.exists_ending (List.mem_toFinset.1 hk)
    exact among before.admitted ends
  have card := Finset.card_le_card inside
  rwa [List.toFinset_card_of_nodup h.nodup] at card

section

variable [KeyType κ] [LawfulKeyType κ]

/-- A route is followed to its end by a recursion as deep as there are nodes that it has not met. -/
theorem Responds.exists_explored (h : Responds b o) (among : EndsAmong b o nodes) {depth : Nat}
    {v : Visit σ κ} (here : Acyclic b o v.arrival.steps v.arrival.state v.onRoute)
    (deep : nodes.card < depth + v.onRoute.length) : ∃ vs, explored b o depth v = .ok vs := by
  induction depth generalizing v with
  | zero =>
    have short := here.length_le among
    omega
  | succ depth ih =>
    obtain ⟨found, computed⟩ := h.exists_successors here.admitted fun k => ⟨_, v.enters_eq k⟩
    have below : ∀ u ∈ v.next found, ∃ part, explored b o depth u = .ok part := by
      intro u hu
      obtain ⟨x, hx, rfl⟩ := List.mem_map.1 hu
      obtain ⟨sent, key, entered⟩ := (mem_successors_iff computed).1 hx
      have new : x.key ∉ v.onRoute := (Visit.enters_eq_ok_iff.1 entered).1 rfl
      refine ih ?_ ?_
      · rw [Arrival.steps_extend]
        exact .send here sent key new
      · rw [List.length_cons]
        omega
    obtain ⟨parts, made⟩ := exists_mapM_eq_ok below
    exact ⟨_, explored_succ_iff_successors.2 ⟨found, parts, computed, mapM_eq_ok_iff_forall₂.1 made, rfl⟩⟩

theorem depth_lt_of_mem_simpleVisits (among : EndsAmong b o nodes) {o' : Options σ κ} (same : SameGraph o o')
    {visits : List (Visit σ κ)} (run : simpleVisits b o' = .ok visits) :
    ∀ v ∈ visits, v.arrival.depth < nodes.card := by
  obtain ⟨table, rfl, -, members⟩ := exists_table run
  intro v hv
  obtain ⟨⟨choices, _⟩, mem, rfl⟩ := List.mem_map.1 hv
  have acyclic := (same.symm.simpleRoute ((members _ _).1 mem)).acyclic
  have short := acyclic.length_le among
  rw [acyclic.length_eq, Arrival.length_steps] at short
  exact short

/-! ## Both searches -/

theorem Responds.exists_routes (h : Responds b o) (among : EndsAmong b o nodes) :
    ∃ routes, routes.length ≤ nodes.card ∧
      ∀ fuel, nodes.card ≤ fuel → shortestRoutes b (o.unlimited fuel) = .ok routes := by
  obtain ⟨k, initial⟩ := h.start
  have bounded : ∀ expanded frontier, Progress b o expanded frontier →
      expanded.length + frontier.length ≤ nodes.card := by
    intro expanded frontier progress
    have few := progress.table.length_le among
    rwa [List.length_append] at few
  obtain ⟨routes, run, progress⟩ :=
    exists_worklist_of_bounded (fun _ _ _ progress => h.exists_expandRoute progress) bounded
      (Progress.initial initial) .unfinished (Nat.le_add_left nodes.card _)
  refine ⟨routes, bounded routes [] progress, fun fuel enough => ?_⟩
  rw [shortestRoutes_eq_worklist (o.sameGraph_unlimited fuel) rfl initial]
  exact worklist_of_le run .unfinished enough

theorem Responds.exists_visits (h : Responds b o) (among : EndsAmong b o nodes) :
    ∃ visits, ∀ fuel, visits.length ≤ fuel → simpleVisits b (o.unlimited fuel) = .ok visits := by
  obtain ⟨k, initial⟩ := h.start
  have first : Acyclic b o (Visit.start b k).arrival.steps (Visit.start b k).arrival.state
      (Visit.start b k).onRoute := .initial initial
  obtain ⟨visits, recursion⟩ := h.exists_explored among first (Nat.lt_add_of_pos_right Nat.one_pos)
  refine ⟨visits, fun fuel enough => ?_⟩
  have run : worklist (expandVisit b o) o.exhausted visits.length [] [Visit.start b k] = .ok visits := by
    have whole := walk_of_explored recursion 0 [] []
    rw [Nat.zero_add, walk_eq_worklist] at whole
    rw [whole]
    rfl
  rw [simpleVisits_eq_worklist (o.sameGraph_unlimited fuel) initial]
  exact worklist_of_le run .unfinished enough

/-- Where plans can be made, the breadth-first search makes them, and a limit of the number of nodes does not
stop it. -/
theorem Responds.exists_shortestPlans (h : Responds b o) (texts : TextTypes b o)
    (among : EndsAmong b o nodes) :
    ∃ plans, (∀ fuel, nodes.card ≤ fuel → shortestPlans b (o.unlimited fuel) = .ok plans) ∧
      ∀ limit : Int, nodes.card ≤ limit → shortestPlans b (o.limited limit) = .ok plans := by
  obtain ⟨routes, few, run⟩ := h.exists_routes among
  obtain ⟨plans, made⟩ := h.exists_routePlans texts (o.sameGraph_unlimited _) (run _ (Nat.le_refl _))
  have unlimited : ∀ fuel, nodes.card ≤ fuel → shortestPlans b (o.unlimited fuel) = .ok plans :=
    fun fuel enough => bind_eq_ok_iff.2 ⟨routes, run fuel enough, made⟩
  refine ⟨plans, unlimited, fun limit enough => ?_⟩
  have counted : FindsNodes b o routes.length :=
    ⟨_, routes, run _ (Nat.le_refl _), encard_nodes (run _ (Nat.le_refl _))⟩
  obtain ⟨outcome, ⟨granted, ends⟩, -, limited⟩ := (h.shortestPlans_allOrNothing limit).ends _ counted
  have same := (ends _ (Nat.le_max_left granted nodes.card)).symm.trans
    (unlimited _ (Nat.le_max_right granted nodes.card))
  rw [limited, if_pos (Int.le_trans (Int.ofNat_le.2 few) enough), same]

/-- Where plans can be made, the depth-first search makes them once it is granted enough steps. -/
theorem Responds.exists_simplePlans (h : Responds b o) (texts : TextTypes b o)
    (among : EndsAmong b o nodes) :
    ∃ plans enough, ∀ fuel, enough ≤ fuel → simplePlans b (o.unlimited fuel) = .ok plans := by
  obtain ⟨visits, run⟩ := h.exists_visits among
  obtain ⟨plans, made⟩ := h.exists_visitPlans texts (o.sameGraph_unlimited _) (run _ (Nat.le_refl _))
  exact ⟨plans, visits.length, fun fuel enough => bind_eq_ok_iff.2 ⟨visits, run fuel enough, made⟩⟩

/-- The paths of simple plans have fewer steps than there are nodes. -/
theorem length_lt_of_simplePlans (among : EndsAmong b o nodes) {plans : List (Plan σ)}
    (h : simplePlans b o = .ok plans) :
    ∀ plan ∈ plans, ∀ path ∈ plan.paths, path.steps.length < nodes.card := by
  intro plan hplan path hpath
  obtain ⟨k, -, simpleFor⟩ := exists_simplePlanFor_of_mem h hplan
  obtain ⟨-, -, ⟨met, acyclic⟩, -⟩ := simpleFor.acyclic path hpath
  have short := acyclic.length_le among
  rwa [acyclic.length_eq] at short

/-- **Searches of finitely many nodes end without a limit.** The breadth-first search expands no more routes
than there are nodes. The depth-first search makes some number of visits, and each of them is by fewer
steps than there are nodes. -/
theorem searches_end_on_finitely_many_nodes (h : Responds b o) (among : EndsAmong b o nodes) :
    (∃ routes, routes.length ≤ nodes.card ∧
      ∀ fuel, nodes.card ≤ fuel → shortestRoutes b (o.unlimited fuel) = .ok routes) ∧
    ∃ visits, (∀ fuel, visits.length ≤ fuel → simpleVisits b (o.unlimited fuel) = .ok visits) ∧
      ∀ v ∈ visits, v.arrival.depth < nodes.card := by
  refine ⟨h.exists_routes among, ?_⟩
  obtain ⟨visits, run⟩ := h.exists_visits among
  exact ⟨visits, run, depth_lt_of_mem_simpleVisits among (o.sameGraph_unlimited _) (run _ (Nat.le_refl _))⟩

/-- The nodes of the carousel. -/
def carouselNodes : Finset String := {"first", "second", "third", "third, skipped"}

theorem carousel_endsAmong : EndsAmong carousel carouselOptions carouselNodes := by
  intro steps s k _ ends
  obtain ⟨place, moves⟩ := s
  cases place <;> simp only [endKey, carouselOptions, Except.ok.injEq] at ends <;> subst ends
  · decide
  · decide
  · split <;> decide

/-- The carousel turns for ever, but it has four nodes, so both searches of it end. -/
theorem carousel_searches_end :
    Responds carousel carouselOptions ∧ EndsAmong carousel carouselOptions carouselNodes ∧
      carouselNodes.card = 4 ∧
      (∃ routes, routes.length ≤ 4 ∧
        ∀ fuel, 4 ≤ fuel → shortestRoutes carousel (carouselOptions.unlimited fuel) = .ok routes) ∧
      ∃ visits, (∀ fuel, visits.length ≤ fuel →
          simpleVisits carousel (carouselOptions.unlimited fuel) = .ok visits) ∧
        ∀ v ∈ visits, v.arrival.depth < 4 := by
  have four : carouselNodes.card = 4 := by decide
  have ends := searches_end_on_finitely_many_nodes carousel_responds carousel_endsAmong
  rw [four] at ends
  exact ⟨carousel_responds, carousel_endsAmong, four, ends⟩

end

end StateWalk.Search
