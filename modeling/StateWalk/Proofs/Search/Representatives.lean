import StateWalk.Proofs.Search.ShortestPlans

/-!
# Representatives of nodes

The breadth-first search expands one state of every node, the state of the node's first arrival. So every
arrival goes on from the first arrival of a route that is expanded (`Expansion.grown`), and the steps of all
paths are taken in states of plans (`source_of_shortestPlans`).

A search that ends has expanded every route, so whatever it asks about the states of its plans is answered
(`answered_of_shortestPlans`), and the states that follow one of them have plans for their nodes
(`closed_of_shortestPlans`).
-/

namespace StateWalk.Search

open Outcome

variable {σ κ : Type} {b : Behavior σ κ} {o : Options σ κ}

theorem Admitted.exists_sends {steps : List (Step σ)} {s : σ} (h : Admitted b o steps s) :
    ∀ step ∈ steps, ∃ t, Sends b o step.state step.event t := by
  induction h with
  | initial => simp
  | @send steps s t e _ sent ih =>
    intro step mem
    rcases List.mem_append.1 mem with mem | mem
    · exact ih step mem
    · rw [List.mem_singleton] at mem
      exact ⟨t, mem ▸ sent⟩

/-- The arrival is where the search starts, or goes on from the first arrival of one of the routes. -/
def GrownFrom (b : Behavior σ κ) (routes : List (Route σ κ)) (a : Arrival σ) : Prop :=
  a = ⟨b.initial, []⟩ ∨ ∃ q ∈ routes, ∃ x : Successor σ κ, a = q.first.extend x

theorem GrownFrom.mono {routes more : List (Route σ κ)} {a : Arrival σ} (h : GrownFrom b routes a)
    (subset : routes ⊆ more) : GrownFrom b more a :=
  h.imp_right fun ⟨q, hq, grown⟩ => ⟨q, subset hq, grown⟩

/-- The steps to an arrival are taken in the states of first arrivals. -/
theorem GrownFrom.exists_source {routes : List (Route σ κ)} (all : ∀ q ∈ routes, GrownFrom b routes q.first)
    {a : Arrival σ} (h : GrownFrom b routes a) :
    ∀ step ∈ a.steps, ∃ q ∈ routes, q.first.state = step.state := by
  -- The arrival that another one goes on from has one step less.
  induction length : a.depth generalizing a with
  | zero =>
    intro step mem
    have empty : a.steps = [] := List.length_eq_zero_iff.1 (a.length_steps.trans length)
    rw [empty] at mem
    cases mem
  | succ n ih =>
    obtain rfl | ⟨q, hq, x, rfl⟩ := h
    · cases length
    · intro step mem
      rw [Arrival.steps_extend] at mem
      rcases List.mem_append.1 mem with mem | mem
      · exact ih (all q hq) (Nat.succ.inj length) step mem
      · rw [List.mem_singleton] at mem
        exact ⟨q, hq, mem ▸ rfl⟩

section

variable [KeyType κ]

/-- Every arrival has grown from routes that are expanded, and what was asked in order to expand them was
answered. -/
structure Expansion (b : Behavior σ κ) (o : Options σ κ) (expanded frontier : List (Route σ κ)) : Prop where
  grown : ∀ r ∈ expanded ++ frontier, ∀ a ∈ r.first :: r.ties, GrownFrom b expanded a
  answered : ∀ r ∈ expanded, ∃ found, successors b o entersFiled r.first.state = .ok found

theorem Expansion.initial (b : Behavior σ κ) (o : Options σ κ) (k : κ) :
    Expansion b o [] [⟨k, ⟨b.initial, []⟩, []⟩] where
  grown r mem a ha := by
    rw [List.nil_append, List.mem_singleton] at mem
    subst mem
    exact .inl (List.mem_singleton.1 ha)
  answered := by simp

variable [LawfulKeyType κ] {expanded frontier : List (Route σ κ)}

/-- A successor adds an arrival at most, and that goes on from the source. -/
theorem grown_discover {source : Route σ κ} (expands : source ∈ expanded)
    (h : ∀ r ∈ expanded ++ frontier, ∀ a ∈ r.first :: r.ties, GrownFrom b expanded a) (x : Successor σ κ) :
    ∀ r ∈ expanded ++ discover o source.first expanded frontier x, ∀ a ∈ r.first :: r.ties,
      GrownFrom b expanded a := by
  have new : GrownFrom b expanded (source.first.extend x) := .inr ⟨source, expands, x, rfl⟩
  rcases discover_cases o source.first expanded frontier x with ⟨-, eq | eq⟩ | ⟨-, eq⟩ <;> rw [eq]
  · exact h
  · intro r hr a ha
    rcases List.mem_append.1 hr with hr | hr
    · exact h r (List.mem_append_left _ hr) a ha
    · obtain ⟨q, hq, rfl⟩ := List.mem_map.1 hr
      have held := h q (List.mem_append_right _ hq)
      rw [Route.first_addTie] at ha
      rcases List.mem_cons.1 ha with rfl | ha
      · exact held _ List.mem_cons_self
      · obtain ha | ⟨rfl, -⟩ := Route.mem_ties_addTie ha
        · exact held a (List.mem_cons_of_mem _ ha)
        · exact new
  · intro r hr a ha
    rw [← List.append_assoc] at hr
    rcases List.mem_append.1 hr with hr | hr
    · exact h r hr a ha
    · rw [List.mem_singleton] at hr
      subst hr
      exact List.mem_singleton.1 ha ▸ new

theorem grown_discoverAll {source : Route σ κ} (expands : source ∈ expanded)
    (h : ∀ r ∈ expanded ++ frontier, ∀ a ∈ r.first :: r.ties, GrownFrom b expanded a)
    (found : List (Successor σ κ)) :
    ∀ r ∈ expanded ++ found.foldl (discover o source.first expanded) frontier, ∀ a ∈ r.first :: r.ties,
      GrownFrom b expanded a := by
  induction found generalizing frontier with
  | nil => exact h
  | cons x found ih => exact ih (grown_discover expands h x)

theorem Expansion.step {r : Route σ κ} {found : List (Successor σ κ)}
    (h : Expansion b o expanded (r :: frontier))
    (computed : successors b o entersFiled r.first.state = .ok found) :
    Expansion b o (expanded ++ [r]) (found.foldl (discover o r.first (expanded ++ [r])) frontier) where
  grown := by
    refine grown_discoverAll (List.mem_append_right _ (List.mem_singleton.2 rfl)) ?_ found
    rw [List.append_assoc]
    exact fun q hq a ha => (h.grown q hq a ha).mono (List.subset_append_left _ _)
  answered q hq := by
    rcases List.mem_append.1 hq with hq | hq
    · exact h.answered q hq
    · rw [List.mem_singleton] at hq
      exact ⟨found, hq ▸ computed⟩

theorem Expansion.explore {budget : Nat} {routes : List (Route σ κ)} (h : Expansion b o expanded frontier)
    (run : Search.explore b o budget expanded frontier = .ok routes) : Expansion b o routes [] := by
  induction budget generalizing expanded frontier with
  | zero =>
    cases frontier with
    | nil =>
      cases run
      exact h
    | cons r frontier => cases run
  | succ budget ih =>
    cases frontier with
    | nil =>
      cases run
      exact h
    | cons r frontier =>
      obtain ⟨found, computed, run⟩ := bind_eq_ok_iff.1 run
      exact ih (h.step computed) run

theorem expansion_of_shortestRoutes {routes : List (Route σ κ)} (h : shortestRoutes b o = .ok routes) :
    Expansion b o routes [] := by
  obtain ⟨k, -, run⟩ := bind_eq_ok_iff.1 h
  exact (Expansion.initial b o k).explore run

/-! ## The states of plans -/

variable {plans : List (Plan σ)}

/-- The plans of a search that ended are those of its routes. -/
theorem exists_routes_of_shortestPlans (h : shortestPlans b o = .ok plans) :
    ∃ routes, Progress b o routes [] ∧ Expansion b o routes [] ∧
      List.Forall₂ (fun r plan => Route.plan (describer b o) r = .ok plan) routes plans ∧
      ∀ s, (∃ plan ∈ plans, plan.state = s) ↔ ∃ r ∈ routes, r.first.state = s := by
  obtain ⟨routes, found, made⟩ := shortestPlans_eq_ok_iff.1 h
  have state : List.Forall₂ (fun r (plan : Plan σ) => plan.state = r.first.state) routes plans := by
    refine made.imp fun r plan made => ?_
    obtain ⟨_, _, -, state, state', -, -⟩ := Route.paths_of_plan made
    exact state.trans state'
  refine ⟨routes, progress_of_shortestRoutes found, expansion_of_shortestRoutes found, made, fun s => ?_⟩
  constructor
  · rintro ⟨plan, mem, rfl⟩
    obtain ⟨r, hr, same⟩ := exists_left_of_forall₂ state mem
    exact ⟨r, hr, same.symm⟩
  · rintro ⟨r, hr, rfl⟩
    exact exists_right_of_forall₂ state hr

/-- The steps of all paths are sent, in states of plans. -/
theorem source_of_shortestPlans (h : shortestPlans b o = .ok plans) :
    ∀ plan ∈ plans, ∀ path ∈ plan.paths, ∀ step ∈ path.steps,
      (∃ source ∈ plans, source.state = step.state) ∧ ∃ t, Sends b o step.state step.event t := by
  obtain ⟨routes, progress, expansion, made, states⟩ := exists_routes_of_shortestPlans h
  have grown := expansion.grown
  have sound := progress.table.sound
  rw [List.append_nil] at grown sound
  intro plan hplan path hpath step hstep
  obtain ⟨r, hr, made⟩ := exists_left_of_forall₂ made hplan
  obtain ⟨_, _, paths, -, rfl⟩ := planOf_eq_ok_iff.1 made
  obtain ⟨a, ha, arrives⟩ := exists_left_of_forall₂ paths hpath
  obtain ⟨text, -, rfl⟩ := Arrival.path_eq_ok_iff.1 arrives
  refine ⟨(states _).2 ?_, (sound r hr a ha).admitted.exists_sends step hstep⟩
  exact (grown r hr a ha).exists_source (fun q hq => grown q hq _ List.mem_cons_self) step hstep

/-- Whatever is asked about the events tried in the state of a plan is answered. -/
theorem answered_of_shortestPlans (h : shortestPlans b o = .ok plans) {plan : Plan σ} (mem : plan ∈ plans) :
    ∃ es, eventsAt b o plan.state = .ok es ∧ ∀ e ∈ es, ∃ t, b.transition plan.state e = .ok t ∧
      ∃ passes, o.admits t = .ok passes := by
  obtain ⟨routes, -, expansion, -, states⟩ := exists_routes_of_shortestPlans h
  obtain ⟨r, hr, state⟩ := (states plan.state).1 ⟨plan, mem, rfl⟩
  obtain ⟨found, computed⟩ := expansion.answered r hr
  rw [state] at computed
  obtain ⟨es, rs, tried, made, -⟩ := successors_eq_ok_iff.1 computed
  refine ⟨es, tried, fun e he => ?_⟩
  obtain ⟨_, -, made⟩ := exists_right_of_forall₂ made he
  obtain ⟨t, leads, ⟨passes, -⟩ | ⟨passes, -⟩⟩ := successor?_eq_ok_iff.1 made
  · exact ⟨t, leads, false, passes⟩
  · exact ⟨t, leads, true, passes⟩

/-- What an event sent in the state of a plan leads to has a plan for its node. -/
theorem closed_of_shortestPlans (h : shortestPlans b o = .ok plans) {plan : Plan σ} (mem : plan ∈ plans)
    {e : Event} {t : σ} (sent : Sends b o plan.state e t) :
    ∃ target ∈ plans, ∃ steps k, Admitted b o steps target.state ∧
      endKey o steps target.state = .ok k ∧ o.stateKey t (some e) = .ok k := by
  obtain ⟨routes, progress, -, -, states⟩ := exists_routes_of_shortestPlans h
  obtain ⟨r, hr, state⟩ := (states plan.state).1 ⟨plan, mem, rfl⟩
  obtain ⟨q, hq, key, -⟩ := progress.closed r hr e t (state.symm ▸ sent)
  have held := progress.table.sound q hq _ List.mem_cons_self
  obtain ⟨target, htarget, same⟩ := (states q.first.state).2 ⟨q, by simpa using hq, rfl⟩
  exact ⟨target, htarget, q.first.steps, q.key, same ▸ held.admitted, same ▸ held.ends, key⟩

end

end StateWalk.Search
