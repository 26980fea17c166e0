import StateWalk.Proofs.Search.ShortestPlans
import StateWalk.Proofs.Search.SimpleVisits

/-!
# Generated plans are sound

What holds of the plans of both searches, whatever the behavior and the options: each path can be
replayed and leads through the states that its steps record, all paths of a plan end at one node, and no
two plans have the same node (`PlansSound`).

Both searches make a plan of the arrivals at a node, so `Plan.ForNode` is all that is needed of them.
-/

namespace StateWalk

open Search Outcome

variable {σ κ : Type} {b : Behavior σ κ} {o : Options σ κ}

/-- Replaying the path leads to its state, and after each number of steps to the state that the next
step records; the events sent are tried, and the states that they lead to pass the filter. -/
structure Path.Sound (b : Behavior σ κ) (o : Options σ κ) (p : Path σ) : Prop where
  replays : b.replay p.steps = .ok p.state
  states : ∀ i (hi : i < p.steps.length), b.replay (p.steps.take i) = .ok p.steps[i].state
  tried : ∀ step ∈ p.steps, Tries b o step.state step.event
  passes : ∀ i, 0 < i → i ≤ p.steps.length →
    ∃ s, b.replay (p.steps.take i) = .ok s ∧ o.admits s = .ok true
  weight : p.weight = p.steps.length

/-- The paths of the plan are sound and end at one node, and its state is that of the first path. -/
structure Plan.Sound (b : Behavior σ κ) (o : Options σ κ) (plan : Plan σ) : Prop where
  paths : ∀ p ∈ plan.paths, p.Sound b o
  node : ∃ k, ∀ p ∈ plan.paths, endKey o p.steps p.state = .ok k
  first : ∃ p others, plan.paths = p :: others ∧ plan.state = p.state

/-- The plans are sound and of different nodes. -/
structure Search.PlansSound (b : Behavior σ κ) (o : Options σ κ) (plans : List (Plan σ)) : Prop where
  each : ∀ plan ∈ plans, plan.Sound b o
  distinct : plans.Pairwise fun plan plan' => ∀ p ∈ plan.paths, ∀ p' ∈ plan'.paths,
    endKey o p.steps p.state ≠ endKey o p'.steps p'.state

/-! ## Plans for nodes -/

theorem Search.Arrival.At.sound {a : Arrival σ} {k : κ} {p : Path σ} (h : a.At b o k)
    (path : a.path = .ok p) : p.Sound b o := by
  obtain ⟨_, _, rfl⟩ := Arrival.path_eq_ok_iff.1 path
  constructor
  · exact h.admitted.replay
  · intro i hi
    exact (h.admitted.take hi).replay
  · exact h.admitted.tries
  · intro i pos hi
    exact h.admitted.passes_take pos hi
  · simp

theorem Search.Arrival.At.endKey_path {a : Arrival σ} {k : κ} {p : Path σ} (h : a.At b o k)
    (path : a.path = .ok p) : endKey o p.steps p.state = .ok k := by
  obtain ⟨_, _, rfl⟩ := Arrival.path_eq_ok_iff.1 path
  exact h.ends

theorem Plan.ForNode.endKey_path {k : κ} {plan : Plan σ} (h : plan.ForNode b o k) :
    ∀ p ∈ plan.paths, endKey o p.steps p.state = .ok k := by
  intro p hp
  obtain ⟨a, arrives, path⟩ := h.arrivals p hp
  exact arrives.endKey_path path

/-- A plan for a node has a path, and with it steps that arrive there. -/
theorem Plan.ForNode.exists_arrival {k : κ} {plan : Plan σ} (h : plan.ForNode b o k) :
    ∃ a : Arrival σ, a.At b o k := by
  obtain ⟨p, others, paths, -⟩ := h.first
  obtain ⟨a, arrives, -⟩ := h.arrivals p (paths ▸ List.mem_cons_self)
  exact ⟨a, arrives⟩

theorem Plan.ForNode.sound {k : κ} {plan : Plan σ} (h : plan.ForNode b o k) : plan.Sound b o := by
  refine ⟨fun p hp => ?_, ⟨k, h.endKey_path⟩, h.first⟩
  obtain ⟨a, arrives, path⟩ := h.arrivals p hp
  exact arrives.sound path

/-- Plans for different nodes. -/
theorem Search.plansSound_of_forNodes {keys : List κ} {plans : List (Plan σ)} (distinct : keys.Nodup)
    (h : List.Forall₂ (Plan.ForNode b o) keys plans) : PlansSound b o plans := by
  constructor
  · intro plan hplan
    obtain ⟨k, -, forNode⟩ := exists_left_of_forall₂ h hplan
    exact forNode.sound
  · induction h with
    | nil => exact .nil
    | @cons k plan keys plans head tail ih =>
      obtain ⟨new, distinct⟩ := List.nodup_cons.1 distinct
      refine List.pairwise_cons.2 ⟨fun plan' hplan' p hp p' hp' same => ?_, ih distinct⟩
      obtain ⟨k', hk', forNode⟩ := exists_left_of_forall₂ tail hplan'
      rw [head.endKey_path p hp, forNode.endKey_path p' hp'] at same
      exact new (Except.ok.inj same ▸ hk')

section

variable [KeyType κ] [LawfulKeyType κ]

theorem Search.forNodes_of_shortestPlans {plans : List (Plan σ)} (h : shortestPlans b o = .ok plans) :
    ∃ keys : List κ, keys.Nodup ∧ List.Forall₂ (Plan.ForNode b o) keys plans := by
  obtain ⟨routes, found, made⟩ := shortestPlans_eq_ok_iff.1 h
  have table : Table b o routes := List.append_nil routes ▸ (progress_of_shortestRoutes found).table
  refine ⟨routes.map Route.key, List.pairwise_map.2 table.distinct, forall₂_map_left made ?_⟩
  exact fun r hr plan made => forNode_of_planOf made (table.sound r hr)

/-- The plans of either search. -/
theorem Search.forNodes_of_plans {plans : List (Plan σ)}
    (h : shortestPlans b o = .ok plans ∨ simplePlans b o = .ok plans) :
    ∃ keys : List κ, keys.Nodup ∧ List.Forall₂ (Plan.ForNode b o) keys plans := by
  obtain h | h := h
  · exact forNodes_of_shortestPlans h
  · obtain ⟨visits, groups, run, -⟩ := simplePlans_eq_ok h
    obtain ⟨keys, met, made⟩ := forNodes_of_simplePlans run h
    exact ⟨keys, met.distinct, made⟩

namespace Assertion

/-- On a path that replays the assertion only computes keys. -/
theorem key_eq_error_of_pathReplays {key : StateKey σ κ} {p : Path σ} {f : Fault}
    (replays : b.replay p.steps = .ok p.state) (h : pathReplays b key p = .error f) :
    key p.state none = .error f := by
  cases hk : key p.state none with
  | error f' =>
    simp only [pathReplays, replays, hk, bind, Except.bind] at h
    cases h
    rfl
  | ok k =>
    have same : KeyType.equals k k = true := (LawfulKeyType.equals_iff k k).2 rfl
    simp only [pathReplays, replays, hk, same, bind, Except.bind, if_true] at h
    cases h

/-- On plans whose paths replay the assertion fails only where a key cannot be computed. -/
theorem key_eq_error_of_plansReplay {key : StateKey σ κ} {plans : List (Plan σ)} {f : Fault}
    (replays : ∀ plan ∈ plans, ∀ p ∈ plan.paths, b.replay p.steps = .ok p.state)
    (h : plansReplay b key plans = .error f) :
    ∃ plan ∈ plans, ∃ p ∈ plan.paths, key p.state none = .error f := by
  obtain ⟨plan, hplan, h⟩ := exists_of_forM_eq_error h
  obtain ⟨p, hp, h⟩ := exists_of_forM_eq_error h
  exact ⟨plan, hplan, p, hp, key_eq_error_of_pathReplays (replays plan hplan p hp) h⟩

end Assertion

open Assertion in
/-- **Generated plans are sound**, so the assertion that they replay fails only with the serializer that
it is given. -/
theorem Search.generated_plans_sound {plans : List (Plan σ)}
    (h : shortestPlans b o = .ok plans ∨ simplePlans b o = .ok plans) :
    PlansSound b o plans ∧ ∀ (key : StateKey σ κ) (f : Fault), plansReplay b key plans = .error f →
      ∃ plan ∈ plans, ∃ p ∈ plan.paths, key p.state none = .error f := by
  obtain ⟨keys, distinct, made⟩ := forNodes_of_plans h
  have sound := plansSound_of_forNodes distinct made
  refine ⟨sound, fun key f failed => key_eq_error_of_plansReplay ?_ failed⟩
  exact fun plan hplan p hp => ((sound.each plan hplan).paths p hp).replays

open Assertion in
/-- The assertion holds of the carousel's plans, of four nodes each, with a key that knows the third
place only by its event. -/
theorem Search.carousel_plans_sound :
    ∃ shortest simple, shortestPlans carousel carouselOptions = .ok shortest ∧
      simplePlans carousel carouselOptions = .ok simple ∧
      shortest.length = 4 ∧ PlansSound carousel carouselOptions shortest ∧
      simple.length = 4 ∧ PlansSound carousel carouselOptions simple ∧
      plansReplay carousel carouselOptions.stateKey simple = .ok () := by
  obtain ⟨shortest, made, shown⟩ := exists_carousel_shortestPlans
  obtain ⟨simple, made', shown'⟩ := exists_carousel_simplePlans
  obtain ⟨sound, -⟩ := generated_plans_sound (.inl made)
  obtain ⟨sound', fails_only⟩ := generated_plans_sound (.inr made')
  refine ⟨shortest, simple, made, made', ?_, sound, ?_, sound', ?_⟩
  · simpa using congrArg List.length shown
  · simpa using congrArg List.length shown'
  · cases replayed : plansReplay carousel carouselOptions.stateKey simple with
    | ok _ => rfl
    | error f =>
      obtain ⟨_, -, _, -, failed⟩ := fails_only _ f replayed
      cases failed

end

end StateWalk
