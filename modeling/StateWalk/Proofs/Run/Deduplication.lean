import StateWalk.Model.Criteria
import StateWalk.Proofs.Machine.RecordedEvent
import StateWalk.Proofs.Plan.Maximal
import StateWalk.Proofs.Run.Coverage
import StateWalk.Proofs.Search.Soundness

/-!
# Runs of maximal paths only

A path that begins another one is not needed for coverage: where events with one key do the same, the other
path leads through equal states and takes equal steps first (`Begins.visits`). So a run of the maximal paths of
generated plans counts the same states and steps as a run of all paths, if nothing stops it
(`maximalPaths_cover_the_same`), and a criterion that only asks what was visited at all is met by both or by
none.

Which states are equal is for the caller to say, but coverage knows states by their keys. So equal states must have
one key and go on alike (`Behavior.Respects`): if they do not, the paths that are left out may have led to keys that
the others miss (`bell_coverage_lost`).
-/

namespace StateWalk

open Outcome Model Search

variable {σ κ γ ω : Type} {b : Behavior σ κ} {eventKey : Event → Except Fault κ}

/-! ## Steps that are followed -/

/-- Steps from one state to another: each is recorded with the state that it is taken in. -/
def Behavior.Follows (b : Behavior σ κ) : σ → List (Step σ) → σ → Prop
  | s, [], t => s = t
  | s, step :: steps, t => step.state = s ∧ ∃ u, b.transition s step.event = .ok u ∧ b.Follows u steps t

/-- States that are equal have one key, and an event leads from them to equal states. -/
structure Behavior.Respects (b : Behavior σ κ) (stateKey : σ → Option Event → Except Fault κ)
    (same : σ → σ → Prop) : Prop where
  equivalence : Equivalence same
  key : ∀ {s t}, same s t → stateKey s none = stateKey t none
  transition : ∀ {s t e u v}, same s t → b.transition s e = .ok u → b.transition t e = .ok v → same u v

/-- Of the events that are tried anywhere, those with one key lead to equal states from everywhere. -/
def Behavior.Interchangeable (b : Behavior σ κ) (o : Search.Options σ κ) (same : σ → σ → Prop) : Prop :=
  ∀ {r r' e e' k}, Tries b o r e → Tries b o r' e' → o.eventKey e = .ok k → o.eventKey e' = .ok k →
    ∀ {s u}, b.transition s e = .ok u → ∃ v, b.transition s e' = .ok v ∧ same u v

namespace Behavior

theorem Follows.concat {s t u : σ} {steps : List (Step σ)} {e : Event} (h : b.Follows s steps t)
    (leads : b.transition t e = .ok u) : b.Follows s (steps ++ [⟨t, e⟩]) u := by
  induction steps generalizing s with
  | nil =>
    cases h
    exact ⟨rfl, u, leads, rfl⟩
  | cons step steps ih =>
    obtain ⟨here, v, first, rest⟩ := h
    exact ⟨here, v, first, ih rest⟩

/-- The first state is among those led through. -/
theorem Follows.start_mem {s t : σ} {steps : List (Step σ)} (h : b.Follows s steps t) :
    s ∈ steps.map Step.state ++ [t] := by
  cases steps with
  | nil => exact List.mem_singleton.2 h
  | cons step steps => exact List.mem_cons.2 (.inl h.1.symm)

/-- The step is by an event that is tried where it is taken. -/
abbrev Attempts (b : Behavior σ κ) (o : Search.Options σ κ) (steps : List (Step σ)) : Prop :=
  ∀ step ∈ steps, Tries b o step.state step.event

/-- Steps by events with the keys of the first events of others are taken in equal states, and lead to one that is
equal to where the others go on. -/
theorem Follows.retrace {o : Search.Options σ κ} {same : σ → σ → Prop} (respects : b.Respects o.stateKey same)
    (alike : b.Interchangeable o same) {s s' t t' : σ} {steps common more : List (Step σ)} (equal : same s s')
    (h : b.Follows s steps t) (h' : b.Follows s' (common ++ more) t') (tries : b.Attempts o steps)
    (tries' : b.Attempts o common)
    (keyed : List.Forall₂ (fun step step' => ∃ k, o.eventKey step.event = .ok k ∧
      o.eventKey step'.event = .ok k) steps common) :
    List.Forall₂ (fun step step' => same step.state step'.state ∧
      o.eventKey step'.event = o.eventKey step.event) steps common ∧
      ∃ start, same t start ∧ b.Follows start more t' := by
  induction keyed generalizing s s' with
  | nil =>
    cases h
    exact ⟨.nil, s', equal, h'⟩
  | cons key _ ih =>
    obtain ⟨rfl, u, leads, rest⟩ := h
    obtain ⟨rfl, u', leads', rest'⟩ := h'
    obtain ⟨k, key, key'⟩ := key
    obtain ⟨first, later⟩ := List.forall_mem_cons.1 tries
    obtain ⟨first', later'⟩ := List.forall_mem_cons.1 tries'
    obtain ⟨v, between, left⟩ := alike first first' key key' leads
    have next : same u u' := respects.equivalence.trans left (respects.transition equal between leads')
    obtain ⟨retraced, goes_on⟩ := ih next rest rest' later later'
    exact ⟨.cons ⟨equal, key'.trans key.symm⟩ retraced, goes_on⟩

end Behavior

theorem Search.Admitted.follows {o : Search.Options σ κ} {steps : List (Step σ)} {s : σ}
    (h : Search.Admitted b o steps s) : b.Follows b.initial steps s := by
  induction h with
  | initial => rfl
  | send _ sent ih => exact ih.concat sent.leads

/-! ## What a beginning visits -/

namespace Plan

theorem Begins.exists_common {p q : Path σ} (h : Begins eventKey p q) :
    ∃ common more, q.steps = common ++ more ∧ List.Forall₂ (fun step step' => ∃ k,
      eventKey step.event = .ok k ∧ eventKey step'.event = .ok k) p.steps common := by
  obtain ⟨ks, _, keys, keys', rest, rfl⟩ := h
  have keyed := mapM_eq_ok_iff_forall₂.1 keys
  obtain ⟨common, more, split, keyed', -⟩ :=
    forall₂_append_left (List.Forall₂.flip (mapM_eq_ok_iff_forall₂.1 keys'))
  refine ⟨common, more, split, ?_⟩
  clear keys keys' split
  generalize p.steps = steps at keyed
  induction keyed generalizing common with
  | nil =>
    cases keyed'
    exact .nil
  | @cons step k steps ks key _ ih =>
    cases keyed' with
    | cons key' rest => exact .cons ⟨k, key, key'⟩ (ih _ rest)

/-- A path that begins another one leads through states that are equal to some that the other leads through, and takes
steps that are equal to some that the other takes. -/
theorem Begins.visits {o : Search.Options σ κ} {same : σ → σ → Prop} (respects : b.Respects o.stateKey same)
    (alike : b.Interchangeable o same) {p q : Path σ} (h : Begins o.eventKey p q)
    (admitted : Admitted b o p.steps p.state) (admitted' : Admitted b o q.steps q.state) :
    (∀ s ∈ p.states, ∃ s' ∈ q.states, same s s') ∧ ∀ step ∈ p.steps, ∃ step' ∈ q.steps,
      same step.state step'.state ∧ o.eventKey step'.event = o.eventKey step.event := by
  obtain ⟨common, more, split, keyed⟩ := h.exists_common
  have followed := admitted'.follows
  have tried : b.Attempts o (common ++ more) := split ▸ admitted'.tries
  rw [split] at followed
  obtain ⟨retraced, start, equal, goes_on⟩ := admitted.follows.retrace respects alike
    (respects.equivalence.refl _) followed admitted.tries (fun step mem => tried step (List.mem_append_left _ mem)) keyed
  rw [Path.states, Path.states, split]
  constructor
  · intro s hs
    rw [List.map_append, List.append_assoc]
    rcases List.mem_append.1 hs with hs | hs
    · obtain ⟨step, mem, rfl⟩ := List.mem_map.1 hs
      obtain ⟨step', mem', here, -⟩ := exists_right_of_forall₂ retraced mem
      exact ⟨step'.state, List.mem_append_left _ (List.mem_map_of_mem mem'), here⟩
    · obtain rfl := List.mem_singleton.1 hs
      exact ⟨start, List.mem_append_right _ goes_on.start_mem, equal⟩
  · intro step mem
    obtain ⟨step', mem', here⟩ := exists_right_of_forall₂ retraced mem
    exact ⟨step', List.mem_append_left more mem', here⟩

end Plan

/-! ## Criteria -/

/-- The same keys are counted, however often. -/
structure Coverage.SameVisited [KeyType κ] (c c' : Coverage σ κ) : Prop where
  states : ∀ key, 0 < c.stateCount key ↔ 0 < c'.stateCount key
  transitions : ∀ key, 0 < c.transitionCount key ↔ 0 < c'.transitionCount key

namespace Coverage.SameVisited

variable {c c' : Coverage σ κ}

theorem getCoverage_eq {m : TestModel σ κ γ ω} {criteria : TestModel.Criteria σ κ γ ω}
    (h : ∀ made, criteria m = .ok made → ∀ criterion ∈ made, criterion.status c = criterion.status c') :
    m.getCoverage c criteria = m.getCoverage c' criteria := by
  rw [TestModel.getCoverage, TestModel.getCoverage]
  cases made : criteria m with
  | error f => rfl
  | ok all =>
    refine mapM_congr fun criterion mem => ?_
    rw [h all made criterion mem]

variable [KeyType κ]

theorem refl (c : Coverage σ κ) : c.SameVisited c := ⟨fun _ => Iff.rfl, fun _ => Iff.rfl⟩

/-- The criteria for states have the same status. -/
theorem coversAllStates (h : c.SameVisited c') (m : TestModel σ κ γ ω)
    (filter : Option (σ → Except Fault Bool)) :
    m.getCoverage c (fun m => m.coversAllStates filter) =
      m.getCoverage c' (fun m => m.coversAllStates filter) := by
  refine getCoverage_eq fun made run criterion mem => ?_
  obtain ⟨states, -, run⟩ := bind_eq_ok_iff.1 run
  obtain ⟨s, -, run⟩ := exists_left_of_forall₂ (mapM_eq_ok_iff_forall₂.1 run) mem
  obtain ⟨key, -, run⟩ := bind_eq_ok_iff.1 run
  obtain ⟨shown, -, run⟩ := bind_eq_ok_iff.1 run
  obtain ⟨skip, -, run⟩ := bind_eq_ok_iff.1 run
  cases run
  have visited : (do return decide (0 < (← c.visitsOfState key)) : Except Fault Bool) =
      do return decide (0 < (← c'.visitsOfState key)) := by
    rw [Coverage.visitsOfState, Coverage.visitsOfState]
    cases KeyType.check key with
    | error f => rfl
    | ok _ => exact congrArg Except.ok (decide_eq_decide.2 (h.states key))
  simp only [Criterion.status, visited]

/-- The criteria for transitions have the same status. -/
theorem coversAllTransitions (h : c.SameVisited c') (m : TestModel σ κ γ ω)
    (filter : Option (Step σ → Except Fault Bool)) :
    m.getCoverage c (fun m => m.coversAllTransitions filter) =
      m.getCoverage c' (fun m => m.coversAllTransitions filter) := by
  refine getCoverage_eq fun made run criterion mem => ?_
  obtain ⟨steps, -, run⟩ := bind_eq_ok_iff.1 run
  obtain ⟨step, -, run⟩ := exists_left_of_forall₂ (mapM_eq_ok_iff_forall₂.1 run) mem
  obtain ⟨key, -, run⟩ := bind_eq_ok_iff.1 run
  obtain ⟨shown, -, run⟩ := bind_eq_ok_iff.1 run
  obtain ⟨skip, -, run⟩ := bind_eq_ok_iff.1 run
  cases run
  have performed : decide (0 < c.transitionCount key) = decide (0 < c'.transitionCount key) :=
    decide_eq_decide.2 (h.transitions key)
  simp only [Criterion.status, performed]

end Coverage.SameVisited

/-! ## Runs of all paths and of maximal paths -/

namespace Model

/-- Nothing stops a run of generated plans: in the states that admitted steps lead to, and for the events
tried there, whatever is asked answers and whatever is called succeeds. -/
structure Directions.Unstopped [KeyType κ] (D : Directions σ κ γ ω) (b : Behavior σ κ)
    (o : Options σ κ γ ω) (context : γ) : Prop where
  states : ∀ {steps s}, Admitted b (o.forSearch b) steps s → D.ForState b o s
  events : ∀ {steps s e}, Admitted b (o.forSearch b) steps s → Tries b (o.forSearch b) s e → D.ForEvent o e
  verifies : ∀ {steps s}, Admitted b (o.forSearch b) steps s →
    ∀ call ∈ D.stateCalls o context s, Succeeds call
  performs : ∀ {steps s e}, Admitted b (o.forSearch b) steps s → Tries b (o.forSearch b) s e →
    ∀ call ∈ D.eventCalls o context ⟨s, e⟩, Succeeds call

namespace Directions

variable {D : Directions σ κ γ ω} {o : Options σ κ γ ω} {context : γ}

theorem mem_stepCalls {i : Nat} {steps : List (Step σ)} {call : Position × Action ω}
    (h : call ∈ D.stepCalls o context i steps) : ∃ step ∈ steps,
      call.2 ∈ D.stateCalls o context step.state ∨ call.2 ∈ D.eventCalls o context step := by
  induction steps generalizing i with
  | nil => cases h
  | cons step steps ih =>
    rw [stepCalls, List.mem_append, List.mem_append] at h
    obtain (h | h) | h := h
    · obtain ⟨a, mem, rfl⟩ := List.mem_map.1 h
      exact ⟨step, List.mem_cons_self, .inl mem⟩
    · obtain ⟨a, mem, rfl⟩ := List.mem_map.1 h
      exact ⟨step, List.mem_cons_self, .inr mem⟩
    · obtain ⟨step', mem, called⟩ := ih h
      exact ⟨step', List.mem_cons_of_mem step mem, called⟩

variable [KeyType κ]

theorem Unstopped.runsThrough (h : D.Unstopped b o context) {path : Path σ}
    (admitted : Admitted b (o.forSearch b) path.steps path.state) : D.RunsThrough b o context path := by
  have reached : ∀ step ∈ path.steps, ∃ before, Admitted b (o.forSearch b) before step.state := by
    intro step mem
    obtain ⟨i, hi, rfl⟩ := List.mem_iff_getElem.1 mem
    exact ⟨_, admitted.take hi⟩
  constructor
  · constructor
    · intro step mem
      obtain ⟨before, reached⟩ := reached step mem
      exact h.states reached
    · intro step mem
      obtain ⟨before, reached⟩ := reached step mem
      exact h.events reached (admitted.tries step mem)
    · exact h.states admitted
  · intro call mem
    rw [schedule, List.mem_append] at mem
    rcases mem with mem | mem
    · obtain ⟨step, mem, called⟩ := mem_stepCalls mem
      obtain ⟨before, reached⟩ := reached step mem
      exact called.elim (h.verifies reached _) (h.performs reached (admitted.tries step mem) _)
    · obtain ⟨a, verifies, rfl⟩ := List.mem_map.1 mem
      exact h.verifies admitted a verifies

end Directions

end Model

namespace Model

theorem admitted_of_plans [KeyType κ] [LawfulKeyType κ] {o : Search.Options σ κ} {plans : List (Plan σ)}
    (h : shortestPlans b o = .ok plans ∨ simplePlans b o = .ok plans) :
    ∀ path ∈ plans.flatMap Plan.paths, Admitted b o path.steps path.state := by
  obtain ⟨keys, -, made⟩ := forNodes_of_plans h
  intro path mem
  obtain ⟨plan, hplan, mem⟩ := List.mem_flatMap.1 mem
  obtain ⟨k, -, forNode⟩ := exists_left_of_forall₂ made hplan
  obtain ⟨a, arrives, arrival⟩ := forNode.arrivals path mem
  obtain ⟨_, -, rfl⟩ := Arrival.path_eq_ok_iff.1 arrival
  exact arrives.admitted

section

variable [KeyType κ] {D : Directions σ κ γ ω} {o : Options σ κ γ ω} {context : γ} {m : TestModel σ κ γ ω}
  {settings : List (Setting σ κ γ ω)}

theorem testPlans_run (resolved : m.resolve settings = .ok o) (maximal : Bool) (session : Session σ κ ω) :
    (m.testPlans settings context maximal).run session =
      match TestModel.plansWith m.behavior o maximal with
      | .error f => (.error (.fault f), session)
      | .ok plans => (m.testPlansGiven settings context plans).run session := by
  rw [TestModel.testPlans, TestModel.plans, resolved]
  change ((Run.ofExcept (TestModel.plansWith m.behavior o maximal) >>= _ : Run σ κ ω _)).run session = _
  rw [run_bind]
  cases TestModel.plansWith m.behavior o maximal <;> rfl

section

variable {same : σ → σ → Prop} {p q : Path σ}

/-- Equal states of paths that can be run are counted by one key. -/
theorem Directions.ForPath.stateKey_eq [LawfulKeyType κ] (respects : b.Respects o.stateKey same)
    (hp : D.ForPath b o p) (hq : D.ForPath b o q) {s t : σ} (hs : s ∈ p.states) (ht : t ∈ q.states)
    (equal : same s t) : D.stateKey t = D.stateKey s := by
  have keyed {p : Path σ} (hp : D.ForPath b o p) {s : σ} (hs : s ∈ p.states) :
      o.stateKey s none = .ok (D.stateKey s) := by
    rw [← nodeKey_eq_stateKey]
    rcases List.mem_append.1 hs with hs | hs
    · obtain ⟨step, mem, rfl⟩ := List.mem_map.1 hs
      exact (hp.states step mem).key
    · exact List.mem_singleton.1 hs ▸ hp.target.key
  exact Except.ok.inj ((keyed hq ht).symm.trans ((respects.key equal).symm.trans (keyed hp hs)))

end

end

theorem note_succeeds (text context : String) : Succeeds (note text context) := fun _ => ⟨_, rfl⟩

end Model

end StateWalk
