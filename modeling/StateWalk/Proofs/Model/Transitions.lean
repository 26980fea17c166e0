import Mathlib
import StateWalk.Proofs.Run.Deduplication
import StateWalk.Proofs.Run.History
import StateWalk.Proofs.Search.Representatives

/-!
# Discoverable transitions

A model lists the events that can be sent in its discoverable states, one for each key. It asks for events,
successors and keys anew, apart from the search that found the states. `allTransitions_closed` says that the
two agree where the key of a state does not depend on the event that produced it: no transition is missing
from the list, and none leads out of the discoverable states.

Then runs of generated paths count no transition that is not listed, since what a run attempts are the steps
of its paths (`part_of_plansAttempts`), and those are sent in discoverable states.
-/

namespace StateWalk

open Outcome Search Model

variable {σ κ γ ω : Type}

namespace Model

/-- The key of a state is the same whatever event produced the state. -/
def KeysIgnoreEvents (o : Options σ κ γ ω) : Prop := ∀ s e, o.stateKey s e = o.stateKey s none

/-- The events that the search tries are the expanded ones. -/
theorem eventsAt_forSearch (o : Options σ κ γ ω) (b : Behavior σ κ) (s : σ) :
    eventsAt b (o.forSearch b) s = o.expandedEvents b s := by
  have reading : eventsAt b (o.forSearch b) s =
      (Reading.after (o.expandedEvents b s) fun es => .ofList (es.map Event.toValue)).mapM Event.ofValue :=
    rfl
  rw [reading]
  cases o.expandedEvents b s with
  | error f => rfl
  | ok es => rw [Reading.after, Reading.mapM_ofList, mapM_ofValue_toValue]

/-! ## What a run attempts -/

theorem mem_attemptsInTurn {ι ε α : Type} {run : ι → ExceptT ε (StateM (Session σ κ ω)) α}
    {attempts : ι → Session σ κ ω → List (Attempt σ κ γ ω)} {items : List ι} {session : Session σ κ ω}
    {a : Attempt σ κ γ ω} (h : a ∈ attemptsInTurn run attempts items session) :
    ∃ i ∈ items, ∃ session', a ∈ attempts i session' := by
  induction items generalizing session with
  | nil => cases h
  | cons i items ih =>
    rw [attemptsInTurn] at h
    rcases List.mem_append.1 h with h | h
    · exact ⟨i, List.mem_cons_self, session, h⟩
    · rcases ran : (run i).run session with ⟨e | x, next⟩
      · rw [ran] at h
        cases h
      · rw [ran] at h
        obtain ⟨j, hj, later⟩ := ih h
        exact ⟨j, List.mem_cons_of_mem _ hj, later⟩

theorem step_of_mem_parts {path : Path σ} {step : Step σ} (h : Part.transition step ∈ path.parts) :
    step ∈ path.steps := by
  simpa [Path.parts] using h

variable [KeyType κ] {m : TestModel σ κ γ ω} {settings : List (Setting σ κ γ ω)} {o : Options σ κ γ ω}

/-- What a run of plans attempts are parts of their paths. -/
theorem part_of_plansAttempts (resolved : m.resolve settings = .ok o) {context : γ} {plans : List (Plan σ)}
    {session : Session σ κ ω} {a : Attempt σ κ γ ω} (h : a ∈ plansAttempts m settings context plans session) :
    a.options = o ∧ ∃ plan ∈ plans, ∃ path ∈ plan.paths, a.part ∈ path.parts := by
  obtain ⟨plan, hplan, _, h⟩ := mem_attemptsInTurn h
  rw [attemptsWith, resolved] at h
  obtain ⟨path, hpath, _, h⟩ := mem_attemptsInTurn h
  obtain ⟨part, hpart, _, h⟩ := mem_attemptsInTurn h
  rw [List.mem_singleton] at h
  subst h
  exact ⟨rfl, plan, hplan, path, hpath, hpart⟩

/-- A run of plans counts the keys of their steps only. -/
theorem step_of_counted [LawfulKeyType κ] (resolved : m.resolve settings = .ok o) {context : γ}
    {plans : List (Plan σ)} {session : Session σ κ ω} {key : String}
    (h : ((m.testPlansGiven settings context plans).run session).2.coverage.transitionCount key ≠
      session.coverage.transitionCount key) :
    ∃ plan ∈ plans, ∃ path ∈ plan.paths, ∃ step ∈ path.steps,
      TestModel.stepKey o.toOptions step = .ok key := by
  classical
  have adds : Adds m.behavior (plansAttempts m settings context plans session) session.coverage
      ((m.testPlansGiven settings context plans).run session).2.coverage := testPlansGiven_adds plans session
  have some_attempt : ∃ a ∈ plansAttempts m settings context plans session, a.Performs key := by
    by_contra none
    push Not at none
    have zero : (plansAttempts m settings context plans session).countP
        (fun a => decide (a.Performs key)) = 0 := by
      rw [List.countP_eq_zero]
      exact fun a mem => by simpa using none a mem
    refine h ?_
    rw [adds.transitions, zero, Nat.add_zero]
  obtain ⟨a, mem, step, _, part, keyed, -⟩ := some_attempt
  obtain ⟨rfl, plan, hplan, path, hpath, hpart⟩ := part_of_plansAttempts resolved mem
  exact ⟨plan, hplan, path, hpath, step, step_of_mem_parts (part ▸ hpart), keyed⟩

end Model

namespace TestModel

variable [KeyType κ] {m : TestModel σ κ γ ω} {settings : List (Setting σ κ γ ω)} {o : Options σ κ γ ω}
  {b : Behavior σ κ}

/-! ## The plans and the states -/

theorem transitionKey_eq (resolved : m.resolve settings = .ok o) (step : Step σ) :
    m.transitionKey settings step = stepKey o.toOptions step := by
  rw [transitionKey, resolved]
  rfl

section

variable [LawfulKeyType κ]

/-- The state of a plan has a key of its own, which no other state of a plan has. -/
theorem exists_key_of_shortestPlans (ignores : KeysIgnoreEvents o) {plans : List (Plan σ)}
    (found : Search.shortestPlans b (o.forSearch b) = .ok plans) {plan : Plan σ} (mem : plan ∈ plans) :
    ∃ k, o.stateKey plan.state none = .ok k ∧
      ∀ plan' ∈ plans, o.stateKey plan'.state none = .ok k → plan'.state = plan.state := by
  obtain ⟨routes, progress, -, -, states⟩ := exists_routes_of_shortestPlans found
  have table := progress.table
  rw [List.append_nil] at table
  have keyed : ∀ r ∈ routes, o.stateKey r.first.state none = .ok r.key := by
    intro r hr
    have ends := (table.sound r hr _ List.mem_cons_self).ends
    exact (ignores _ _).symm.trans ends
  obtain ⟨r, hr, state⟩ := (states plan.state).1 ⟨plan, mem, rfl⟩
  refine ⟨r.key, state ▸ keyed r hr, fun plan' mem' key => ?_⟩
  obtain ⟨r', hr', state'⟩ := (states plan'.state).1 ⟨plan', mem', rfl⟩
  rw [← state', keyed r' hr', Except.ok.injEq] at key
  have distinct : (routes.map Route.key).Nodup := List.pairwise_map.2 table.distinct
  have same : r' = r := List.inj_on_of_nodup_map distinct hr' hr key
  rw [← state', ← state, same]

/-- The discoverable states are the states of all plans. -/
theorem exists_states_of_shortestPlans (ignores : KeysIgnoreEvents o)
    (resolved : m.resolve settings = .ok o) {plans : List (Plan σ)}
    (found : m.shortestPlans settings = .ok plans) :
    ∃ states, m.allStates settings = .ok states ∧ ∀ s, s ∈ states ↔ ∃ plan ∈ plans, plan.state = s := by
  have search := (shortestPlans_eq resolved).symm.trans found
  have keyed : ∀ plan ∈ plans, ∃ k, o.stateKey plan.state none = .ok k := by
    intro plan mem
    obtain ⟨k, key, -⟩ := exists_key_of_shortestPlans ignores search mem
    exact ⟨k, key⟩
  obtain ⟨states, listed⟩ := exists_allStates resolved found keyed
  obtain ⟨_, _, resolved', found', filed, rfl, filing⟩ := filed_of_allStates listed
  cases resolved.symm.trans resolved'
  cases found.symm.trans found'
  refine ⟨_, listed, fun s => ⟨?_, ?_⟩⟩
  · intro mem
    obtain ⟨entry, hentry, rfl⟩ := List.mem_map.1 mem
    exact List.mem_map.1 (filing.sound entry hentry).1
  · rintro ⟨plan, mem, rfl⟩
    obtain ⟨k, key, only⟩ := exists_key_of_shortestPlans ignores search mem
    have taken : k ∈ filed.map Prod.fst := (filing.mem_keys_iff k).2 ⟨_, List.mem_map_of_mem mem, key⟩
    obtain ⟨entry, hentry, rfl⟩ := List.mem_map.1 taken
    obtain ⟨hstate, key'⟩ := filing.sound entry hentry
    obtain ⟨plan', mem', state'⟩ := List.mem_map.1 hstate
    rw [← state'] at key'
    rw [← only plan' mem' key', state']
    exact List.mem_map_of_mem hentry

end

/-! ## The steps that are listed -/

/-- Filing the steps of one state: those of the events whose states pass the filter. -/
theorem filed_of_addSteps {so : Search.Options σ κ} {s : σ} {events : List Event} {things : List (Step σ)}
    {found found' : List (String × Step σ)} (h : Filed (stepKey so) things found)
    (run : addSteps b so s found events = .ok found') :
    ∃ more, Filed (stepKey so) (things ++ more) found' ∧ ∀ step, step ∈ more ↔
      step.state = s ∧ step.event ∈ events ∧
        ∃ t, b.transition step.state step.event = .ok t ∧ so.admits t = .ok true := by
  induction events generalizing things found with
  | nil =>
    cases run
    exact ⟨[], by rwa [List.append_nil], by simp⟩
  | cons e events ih =>
    rw [addSteps] at run
    obtain ⟨t, leads, run⟩ := bind_eq_ok_iff.1 run
    obtain ⟨passes, filtered, run⟩ := bind_eq_ok_iff.1 run
    cases passes with
    | false =>
      obtain ⟨more, filing, members⟩ := ih h run
      refine ⟨more, filing, fun step => (members step).trans ⟨?_, ?_⟩⟩
      · rintro ⟨state, tried, sent⟩
        exact ⟨state, List.mem_cons_of_mem _ tried, sent⟩
      · rintro ⟨rfl, tried, t', leads', passes⟩
        rcases List.mem_cons.1 tried with rfl | tried
        · cases leads.symm.trans leads'
          cases filtered.symm.trans passes
        · exact ⟨rfl, tried, t', leads', passes⟩
    | true =>
      obtain ⟨k, keyed, run⟩ := bind_eq_ok_iff.1 run
      obtain ⟨found₁, first, run⟩ := bind_eq_ok_iff.1 run
      obtain ⟨more, filing, members⟩ := ih (h.add keyed first) run
      refine ⟨⟨s, e⟩ :: more, by simpa using filing, fun step => ?_⟩
      rw [List.mem_cons, members]
      constructor
      · rintro (rfl | ⟨state, tried, sent⟩)
        · exact ⟨rfl, List.mem_cons_self, t, leads, filtered⟩
        · exact ⟨state, List.mem_cons_of_mem _ tried, sent⟩
      · rintro ⟨rfl, tried, sent⟩
        rcases List.mem_cons.1 tried with event | tried
        · exact .inl (by rw [← event])
        · exact .inr ⟨rfl, tried, sent⟩

/-- The steps can be filed if what is asked about them is answered. -/
theorem exists_addSteps {so : Search.Options σ κ} {s : σ} {events : List Event}
    (answers : ∀ e ∈ events, ∃ t passes, b.transition s e = .ok t ∧ so.admits t = .ok passes ∧
      (passes = true → ∃ k, stepKey so ⟨s, e⟩ = .ok k))
    (found : List (String × Step σ)) : ∃ found', addSteps b so s found events = .ok found' := by
  induction events generalizing found with
  | nil => exact ⟨found, rfl⟩
  | cons e events ih =>
    rw [List.forall_mem_cons] at answers
    obtain ⟨⟨t, passes, leads, filtered, key⟩, rest⟩ := answers
    rw [addSteps]
    cases passes with
    | false =>
      obtain ⟨found', run⟩ := ih rest found
      exact ⟨found', bind_eq_ok_iff.2 ⟨t, leads, bind_eq_ok_iff.2 ⟨false, filtered, run⟩⟩⟩
    | true =>
      obtain ⟨k, keyed⟩ := key rfl
      obtain ⟨found₁, first⟩ : ∃ found₁, fileFirst found k (Step.mk s e) = .ok found₁ :=
        (Filed.fileFirst_cases found k _).elim (fun h => ⟨_, h.2⟩) fun h => ⟨_, h.2⟩
      obtain ⟨found', run⟩ := ih rest found₁
      refine ⟨found', bind_eq_ok_iff.2 ⟨t, leads, bind_eq_ok_iff.2 ⟨true, filtered, ?_⟩⟩⟩
      exact bind_eq_ok_iff.2 ⟨k, keyed, bind_eq_ok_iff.2 ⟨found₁, first, run⟩⟩

/-- Filing the steps of one state after the other: in the end those that are sent in one of them. -/
theorem filed_of_states {states : List σ} {things : List (Step σ)} {found found' : List (String × Step σ)}
    (h : Filed (stepKey o.toOptions) things found)
    (run : states.foldlM (fun found s => do
      addSteps b o.toOptions s found (← o.expandedEvents b s)) found = .ok found') :
    ∃ more, Filed (stepKey o.toOptions) (things ++ more) found' ∧ ∀ step, step ∈ more ↔
      step.state ∈ states ∧ ∃ t, Sends b (o.forSearch b) step.state step.event t := by
  induction states generalizing things found with
  | nil =>
    cases run
    exact ⟨[], by rwa [List.append_nil], by simp⟩
  | cons s states ih =>
    rw [List.foldlM_cons] at run
    obtain ⟨found₁, first, run⟩ := bind_eq_ok_iff.1 run
    obtain ⟨events, expanded, first⟩ := bind_eq_ok_iff.1 first
    obtain ⟨here, filing₁, members₁⟩ := filed_of_addSteps h first
    obtain ⟨later, filing, members⟩ := ih filing₁ run
    refine ⟨here ++ later, by rwa [← List.append_assoc], fun step => ?_⟩
    have tries_iff : Tries b (o.forSearch b) s step.event ↔ step.event ∈ events := by
      simp [Tries, eventsAt_forSearch, expanded]
    rw [List.mem_append, members₁, members, List.mem_cons]
    constructor
    · rintro (⟨rfl, tried, t, leads, passes⟩ | ⟨mem, sent⟩)
      · exact ⟨.inl rfl, t, tries_iff.2 tried, leads, passes⟩
      · exact ⟨.inr mem, sent⟩
    · rintro ⟨rfl | mem, t, sent⟩
      · exact .inl ⟨rfl, tries_iff.1 sent.tried, t, sent.leads, sent.passes⟩
      · exact .inr ⟨mem, t, sent⟩

theorem exists_filed {states : List σ}
    (answers : ∀ s ∈ states, ∃ events, o.expandedEvents b s = .ok events ∧
      ∀ e ∈ events, ∃ t passes, b.transition s e = .ok t ∧ o.admits t = .ok passes ∧
        (passes = true → ∃ k, stepKey o.toOptions ⟨s, e⟩ = .ok k))
    (found : List (String × Step σ)) :
    ∃ found', states.foldlM (fun found s => do
      addSteps b o.toOptions s found (← o.expandedEvents b s)) found = .ok found' := by
  induction states generalizing found with
  | nil => exact ⟨found, rfl⟩
  | cons s states ih =>
    rw [List.forall_mem_cons] at answers
    obtain ⟨⟨events, expanded, here⟩, rest⟩ := answers
    obtain ⟨found₁, first⟩ := exists_addSteps here found
    obtain ⟨found', run⟩ := ih rest found₁
    refine ⟨found', ?_⟩
    rw [List.foldlM_cons]
    exact bind_eq_ok_iff.2 ⟨found₁, bind_eq_ok_iff.2 ⟨events, expanded, first⟩, run⟩

/-! ## The list and the search -/

/-- What the list of transitions is made of: the steps that are sent in discoverable states, each filed under
its key. -/
theorem filed_of_allTransitions (resolved : m.resolve settings = .ok o) {states : List σ}
    (listed : m.allStates settings = .ok states) {steps : List (Step σ)}
    (made : m.allTransitions settings = .ok steps) :
    ∃ (sent : List (Step σ)) (entries : List (String × Step σ)), steps = entries.map Prod.snd ∧
      Filed (stepKey o.toOptions) sent entries ∧ ∀ step, step ∈ sent ↔
        step.state ∈ states ∧ ∃ t, Sends m.behavior (o.forSearch m.behavior) step.state step.event t := by
  simp only [allTransitions, bind_eq_ok_iff] at made
  obtain ⟨_, resolved', _, listed', entries, run, eq⟩ := made
  cases resolved.symm.trans resolved'
  cases listed.symm.trans listed'
  cases eq
  obtain ⟨sent, filing, members⟩ := filed_of_states Filed.nil run
  exact ⟨sent, entries, rfl, filing, members⟩

theorem exists_allTransitions (resolved : m.resolve settings = .ok o) {states : List σ}
    (listed : m.allStates settings = .ok states)
    (answers : ∀ s ∈ states, ∃ events, o.expandedEvents m.behavior s = .ok events ∧
      ∀ e ∈ events, ∃ t passes, m.behavior.transition s e = .ok t ∧ o.admits t = .ok passes ∧
        (passes = true → ∃ k, stepKey o.toOptions ⟨s, e⟩ = .ok k)) :
    ∃ steps, m.allTransitions settings = .ok steps := by
  obtain ⟨entries, run⟩ := exists_filed answers []
  refine ⟨entries.map Prod.snd, ?_⟩
  simp only [allTransitions, bind_eq_ok_iff]
  exact ⟨o, resolved, states, listed, entries, run, rfl⟩

/-- The step has a key, and the list has a step of this key. -/
def IsListed (m : TestModel σ κ γ ω) (settings : List (Setting σ κ γ ω)) (steps : List (Step σ))
    (step : Step σ) : Prop :=
  ∃ k, m.transitionKey settings step = .ok k ∧ ∃ listed ∈ steps, m.transitionKey settings listed = .ok k

/-- The steps have different keys, they are what can be sent in the states, and lead from these to these.
All steps of the plans are listed, so runs of paths of the plans count no others. -/
structure ClosedAndComplete (m : TestModel σ κ γ ω) (settings : List (Setting σ κ γ ω))
    (o : Options σ κ γ ω) (plans : List (Plan σ)) (states : List σ) (steps : List (Step σ)) : Prop where
  distinct : ∃ keys : List String, keys.Nodup ∧
    List.Forall₂ (fun step k => m.transitionKey settings step = .ok k) steps keys
  closed : ∀ step ∈ steps, step.state ∈ states ∧
    (∃ events, o.expandedEvents m.behavior step.state = .ok events ∧ step.event ∈ events) ∧
    ∃ next, m.behavior.transition step.state step.event = .ok next ∧ o.admits next = .ok true ∧
      ∃ target ∈ states, ∃ k, m.stateKey settings target = .ok k ∧ m.stateKey settings next = .ok k
  complete : ∀ {s events e next}, s ∈ states → o.expandedEvents m.behavior s = .ok events → e ∈ events →
    m.behavior.transition s e = .ok next → o.admits next = .ok true → IsListed m settings steps ⟨s, e⟩
  planned : ∀ plan ∈ plans, ∀ path ∈ plan.paths, ∀ step ∈ path.steps, IsListed m settings steps step
  counted : ∀ {given : List (Plan σ)}, (∀ path ∈ given.flatMap Plan.paths, path ∈ plans.flatMap Plan.paths) →
    ∀ {context session k}, ((m.testPlansGiven settings context given).run session).2.coverage.transitionCount k ≠
        session.coverage.transitionCount k →
      ∃ step ∈ steps, m.transitionKey settings step = .ok k

section

variable [LawfulKeyType κ] {plans : List (Plan σ)} {states : List σ} {steps : List (Step σ)}

/-- The source of a step that is sent is the state of a plan, so its target has a plan for its node. -/
theorem exists_target (ignores : KeysIgnoreEvents o) (resolved : m.resolve settings = .ok o)
    (search : Search.shortestPlans m.behavior (o.forSearch m.behavior) = .ok plans)
    (members : ∀ s, s ∈ states ↔ ∃ plan ∈ plans, plan.state = s) {s t : σ} {e : Event} (hs : s ∈ states)
    (sends : Sends m.behavior (o.forSearch m.behavior) s e t) :
    ∃ target ∈ states, ∃ k, m.stateKey settings target = .ok k ∧ m.stateKey settings t = .ok k := by
  obtain ⟨plan, hplan, rfl⟩ := (members s).1 hs
  obtain ⟨target, htarget, steps, k, -, ends, key⟩ := closed_of_shortestPlans search hplan sends
  refine ⟨target.state, (members _).2 ⟨target, htarget, rfl⟩, k, ?_, ?_⟩
  · rw [stateKey_eq resolved]
    exact (ignores _ _).symm.trans ends
  · rw [stateKey_eq resolved]
    exact (ignores _ _).symm.trans key

omit [LawfulKeyType κ] in
theorem isListed_of_sends (resolved : m.resolve settings = .ok o)
    (listed : m.allStates settings = .ok states) (made : m.allTransitions settings = .ok steps)
    (step : Step σ) (hs : step.state ∈ states) {t : σ}
    (sends : Sends m.behavior (o.forSearch m.behavior) step.state step.event t) :
    IsListed m settings steps step := by
  obtain ⟨sent, entries, rfl, filing, all⟩ := filed_of_allTransitions resolved listed made
  obtain ⟨k, taken, key⟩ := filing.complete step ((all _).2 ⟨hs, t, sends⟩)
  obtain ⟨entry, hentry, rfl⟩ := List.mem_map.1 taken
  refine ⟨entry.1, ?_, entry.2, List.mem_map_of_mem hentry, ?_⟩
  · rw [transitionKey_eq resolved, key]
  · rw [transitionKey_eq resolved, (filing.sound entry hentry).2]

theorem closedAndComplete_of_allTransitions (ignores : KeysIgnoreEvents o)
    (resolved : m.resolve settings = .ok o)
    (search : Search.shortestPlans m.behavior (o.forSearch m.behavior) = .ok plans)
    (listed : m.allStates settings = .ok states)
    (members : ∀ s, s ∈ states ↔ ∃ plan ∈ plans, plan.state = s)
    (made : m.allTransitions settings = .ok steps) :
    ClosedAndComplete m settings o plans states steps := by
  have planned : ∀ plan ∈ plans, ∀ path ∈ plan.paths, ∀ step ∈ path.steps,
      IsListed m settings steps step := by
    intro plan hplan path hpath step hstep
    obtain ⟨source, t, sends⟩ := source_of_shortestPlans search plan hplan path hpath step hstep
    exact isListed_of_sends resolved listed made step ((members _).2 source) sends
  obtain ⟨sent, entries, entries_eq, filing, all⟩ := filed_of_allTransitions resolved listed made
  refine ⟨⟨entries.map Prod.fst, filing.distinct, ?_⟩, ?_, ?_, planned, ?_⟩
  · rw [entries_eq, List.forall₂_map_left_iff, List.forall₂_map_right_iff, List.forall₂_same]
    intro entry hentry
    rw [transitionKey_eq resolved, (filing.sound entry hentry).2]
  · rw [entries_eq]
    refine List.forall_mem_map.2 fun entry hentry => ?_
    obtain ⟨hs, t, sends⟩ := (all _).1 (filing.sound entry hentry).1
    obtain ⟨events, tried, he⟩ := sends.tried
    rw [eventsAt_forSearch] at tried
    exact ⟨hs, ⟨events, tried, he⟩, t, sends.leads, sends.passes,
      exists_target ignores resolved search members hs sends⟩
  · intro s events e next hs expanded he leads passes
    have tried : Tries m.behavior (o.forSearch m.behavior) s e :=
      ⟨events, (eventsAt_forSearch o _ _).trans expanded, he⟩
    exact isListed_of_sends resolved listed made ⟨s, e⟩ hs ⟨tried, leads, passes⟩
  · intro given subset context session k changed
    obtain ⟨plan, hplan, path, hpath, step, hstep, key⟩ := step_of_counted resolved changed
    have generated := subset path (List.mem_flatMap.2 ⟨plan, hplan, hpath⟩)
    obtain ⟨plan', hplan', hpath'⟩ := List.mem_flatMap.1 generated
    obtain ⟨k', key', step', hstep', same⟩ := planned plan' hplan' path hpath' step hstep
    rw [transitionKey_eq resolved, key] at key'
    cases key'
    exact ⟨step', hstep', same⟩

/-- What is asked for the list of transitions was answered in the search already, but for the keys of
events. -/
theorem answers_of_shortestPlans (ignores : KeysIgnoreEvents o)
    (search : Search.shortestPlans m.behavior (o.forSearch m.behavior) = .ok plans)
    (members : ∀ s, s ∈ states ↔ ∃ plan ∈ plans, plan.state = s)
    (keyed : ∀ s ∈ states, ∀ e t, Sends m.behavior (o.forSearch m.behavior) s e t →
      ∃ k, o.eventKey e = .ok k) :
    ∀ s ∈ states, ∃ events, o.expandedEvents m.behavior s = .ok events ∧
      ∀ e ∈ events, ∃ t passes, m.behavior.transition s e = .ok t ∧ o.admits t = .ok passes ∧
        (passes = true → ∃ k, stepKey o.toOptions ⟨s, e⟩ = .ok k) := by
  intro s hs
  obtain ⟨plan, hplan, rfl⟩ := (members s).1 hs
  obtain ⟨events, tried, answered⟩ := answered_of_shortestPlans search hplan
  refine ⟨events, (eventsAt_forSearch o _ _).symm.trans tried, fun e he => ?_⟩
  obtain ⟨t, leads, passes, filtered⟩ := answered e he
  refine ⟨t, passes, leads, filtered, fun passed => ?_⟩
  subst passed
  obtain ⟨k, key, -⟩ := exists_key_of_shortestPlans ignores search hplan
  obtain ⟨k', key'⟩ := keyed _ hs e t ⟨⟨events, tried, he⟩, leads, filtered⟩
  exact ⟨_, bind_eq_ok_iff.2 ⟨k, key, bind_eq_ok_iff.2 ⟨k', key', rfl⟩⟩⟩

/-- **The discoverable transitions are closed and complete.** Where the key of a state does not depend on the
event that produced it and the shortest plans are generated, the transitions are listed exactly if every
event that is sent in a discoverable state has a key, and then the list is closed and complete. -/
theorem allTransitions_closed (ignores : KeysIgnoreEvents o) (resolved : m.resolve settings = .ok o)
    (found : m.shortestPlans settings = .ok plans) :
    ∃ states, m.allStates settings = .ok states ∧
      ((∃ steps, m.allTransitions settings = .ok steps) ↔
        ∀ s ∈ states, ∀ e t, Sends m.behavior (o.forSearch m.behavior) s e t → ∃ k, o.eventKey e = .ok k) ∧
      ∀ steps, m.allTransitions settings = .ok steps → ClosedAndComplete m settings o plans states steps := by
  have search := (shortestPlans_eq resolved).symm.trans found
  obtain ⟨states, listed, members⟩ := exists_states_of_shortestPlans ignores resolved found
  refine ⟨states, listed, ⟨?_, ?_⟩, ?_⟩
  · rintro ⟨steps, made⟩ s hs e t sends
    obtain ⟨k, key, -⟩ := isListed_of_sends resolved listed made ⟨s, e⟩ hs sends
    rw [transitionKey_eq resolved] at key
    obtain ⟨_, -, key⟩ := bind_eq_ok_iff.1 key
    obtain ⟨k', key, -⟩ := bind_eq_ok_iff.1 key
    exact ⟨k', key⟩
  · intro keyed
    exact exists_allTransitions resolved listed (answers_of_shortestPlans ignores search members keyed)
  · intro steps made
    exact closedAndComplete_of_allTransitions ignores resolved search listed members made

end

/-! ## A stroll -/

/-- A carousel known by its place only. It can be stepped slowly or fast, and all shortest paths count. -/
def strollOptions : Options (Place × Nat) String String CallLog :=
  { rideOptions with
    stateKey := fun s _ => .ok <| match s.1 with
      | .first => "first"
      | .second => "second"
      | .third => "third"
    eventKey := fun e => .ok <|
      if skips e then "skip" else if e.payload.isEmpty then "step" else "fast step"
    keepTies := true
    eventEntries := [("step", .config
      { cases := some fun _ => .ofList [.mapping [], .mapping [(.text "fast", .bool true)]] })] }

def stroll : TestModel (Place × Nat) String String CallLog := ⟨carousel, .ok strollOptions⟩

/-- The stroll has three states and six transitions. It cannot be sent back to the first place. -/
theorem stroll_transitions_closed :
    KeysIgnoreEvents strollOptions ∧ stroll.resolve [] = .ok strollOptions ∧
      ∃ plans, stroll.shortestPlans [] = .ok plans ∧
        stroll.allStates [] = .ok [(.first, 0), (.second, 1), (.third, 1)] ∧
        ∃ steps, stroll.allTransitions [] = .ok steps ∧
          steps.mapM (stroll.transitionKey []) = .ok ["first | step", "first | fast step", "first | skip",
            "second | step", "second | fast step", "third | skip"] ∧
          ClosedAndComplete stroll [] strollOptions plans [(.first, 0), (.second, 1), (.third, 1)] steps := by
  have ignores : KeysIgnoreEvents strollOptions := fun _ _ => rfl
  have resolved : stroll.resolve [] = .ok strollOptions := rfl
  have listed : stroll.allStates [] = .ok [(.first, 0), (.second, 1), (.third, 1)] := by rfl
  obtain ⟨plans, found⟩ : ∃ plans, stroll.shortestPlans [] = .ok plans := ⟨_, rfl⟩
  obtain ⟨steps, made, keys⟩ : ∃ steps, stroll.allTransitions [] = .ok steps ∧
      steps.mapM (stroll.transitionKey []) = .ok ["first | step", "first | fast step", "first | skip",
        "second | step", "second | fast step", "third | skip"] := ⟨_, by rfl, by rfl⟩
  obtain ⟨states, listed', -, closed⟩ := allTransitions_closed ignores resolved found
  cases listed.symm.trans listed'
  exact ⟨ignores, resolved, plans, found, listed, steps, made, keys, closed steps made⟩

end TestModel

end StateWalk
