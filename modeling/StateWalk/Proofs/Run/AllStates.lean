import StateWalk.Proofs.Model.Criteria
import StateWalk.Proofs.Run.Deduplication

/-!
# Runs of all shortest plans

Three computations know states by keys: the search, by the keys that states have after the events that
produced them; the list of discoverable states, by the keys that they have by themselves; and coverage,
which counts the states that paths lead through. `shortestPlans_cover_states` says that they agree: the
discoverable states are those that the plans are for, and the first path of each plan leads to its state, so a
run that nothing stops covers them all.
-/

namespace StateWalk.Model

open Outcome Search
open TestModel hiding shortestPlans

variable {σ κ γ ω : Type} [KeyType κ] [LawfulKeyType κ] {D : Directions σ κ γ ω} {o : Options σ κ γ ω}
  {context : γ} {b : Behavior σ κ} {plans : List (Plan σ)}

/-- The state of a plan is the one that its first path leads to. -/
theorem exists_path_of_shortestPlans {o : Search.Options σ κ} (found : shortestPlans b o = .ok plans)
    {plan : Plan σ} (mem : plan ∈ plans) : ∃ path ∈ plans.flatMap Plan.paths, path.state = plan.state := by
  obtain ⟨keys, -, made⟩ := forNodes_of_shortestPlans found
  obtain ⟨k, -, forNode⟩ := exists_left_of_forall₂ made mem
  obtain ⟨path, others, paths, state⟩ := forNode.first
  have first : path ∈ plan.paths := paths ▸ List.mem_cons_self
  exact ⟨path, List.mem_flatMap.2 ⟨plan, mem, first⟩, state.symm⟩

theorem admitted_of_shortestPlans {o : Search.Options σ κ} (found : shortestPlans b o = .ok plans)
    {plan : Plan σ} (mem : plan ∈ plans) : ∃ steps, Admitted b o steps plan.state := by
  obtain ⟨path, hpath, state⟩ := exists_path_of_shortestPlans found mem
  exact ⟨path.steps, state ▸ admitted_of_plans (.inl found) path hpath⟩

/-- Once the tasks of all paths are done, the state of every plan is counted. -/
theorem stateCount_pos_of_shortestPlans (found : shortestPlans b (o.forSearch b) = .ok plans)
    {plan : Plan σ} (mem : plan ∈ plans) :
    0 < (countAll (D.allTasks o context (plans.flatMap Plan.paths)) {}).stateCount
      (D.stateKey plan.state) := by
  obtain ⟨path, hpath, state⟩ := exists_path_of_shortestPlans found mem
  have visited : path.state ∈ path.states := List.mem_append_right _ List.mem_cons_self
  exact Directions.stateCount_pos_iff.2 ⟨path, hpath, path.state, visited, congrArg D.stateKey state⟩

variable {m : TestModel σ κ γ ω} {settings : List (Setting σ κ γ ω)}

/-- **Running all shortest plans covers all states.** If nothing stops the run, it returns, and the report on
the discoverable states has one criterion for each key that a state of a plan has by itself, none of which is
uncovered. The model may have another generator, as long as the run is told to use this one. -/
theorem shortestPlans_cover_states {g : Generator σ κ} (resolved : m.resolve [] = .ok { o with generator := g })
    (generates : m.resolve settings = .ok o) (generator : o.generator = shortestPlans)
    (made : m.plans settings = .ok plans) (unstopped : D.Unstopped m.behavior o context)
    {filter : Option (σ → Except Fault Bool)}
    (answers : ∀ {steps s}, Admitted m.behavior (o.forSearch m.behavior) steps s →
      ∃ skip, isSkipped filter s = .ok skip) (w : ω) :
    ∃ results session report keys,
      (m.testPlans settings context).run ⟨{}, w⟩ = (.ok results, session) ∧
      m.getCoverage session.coverage (fun m => m.coversAllStates filter) = .ok report ∧
      (∀ r ∈ report, r.2 ≠ .uncovered) ∧
      keys.Nodup ∧ (∀ k, k ∈ keys ↔ ∃ plan ∈ plans, o.stateKey plan.state none = .ok k) ∧
      List.Forall₂ (fun k r => ∀ c : Coverage σ κ, r.1.predicate c = .ok (decide (0 < c.stateCount k)))
        keys report := by
  have all : plansWith m.behavior o false = .ok plans := by
    rwa [TestModel.plans, generates] at made
  obtain ⟨_, found, eq⟩ := bind_eq_ok_iff.1 all
  cases eq
  rw [generator] at found
  -- the run does the tasks of all paths
  obtain ⟨results, session, run, covered⟩ := D.testPlansGiven_run generates
    (fun path hpath => unstopped.runsThrough (admitted_of_plans (.inl found) path hpath)) ⟨{}, w⟩
  have ran : (m.testPlans settings context).run ⟨{}, w⟩ = (.ok results, session) := by
    rw [testPlans_run generates, all]
    exact run
  -- the discoverable states are those of the plans
  have forState : ∀ plan ∈ plans, D.ForState m.behavior o plan.state := by
    intro plan mem
    obtain ⟨steps, admitted⟩ := admitted_of_shortestPlans found mem
    exact unstopped.states admitted
  have generated := (shortestPlans_eq resolved).trans found
  obtain ⟨states, listed⟩ :=
    exists_allStates resolved generated fun plan mem => ⟨_, (forState plan mem).stateKey⟩
  obtain ⟨_, _, resolved', generated', filed, rfl, filing⟩ := filed_of_allStates listed
  cases resolved.symm.trans resolved'
  cases generated.symm.trans generated'
  have plan_of_entry : ∀ entry ∈ filed, ∃ plan ∈ plans, plan.state = entry.2 :=
    fun entry mem => List.mem_map.1 (filing.sound entry mem).1
  have answering : ∀ s ∈ filed.map Prod.snd, Answers m.behavior { o with generator := g } filter s := by
    refine List.forall_mem_map.2 fun entry mem => ?_
    obtain ⟨plan, hplan, state⟩ := plan_of_entry entry mem
    obtain ⟨steps, admitted⟩ := admitted_of_shortestPlans found hplan
    have here := forState plan hplan
    exact state ▸ ⟨⟨_, here.stateKey⟩, here.described, answers admitted⟩
  obtain ⟨report, reported, each⟩ := exists_stateReport resolved listed answering session.coverage
  rw [List.forall₂_map_left_iff] at each
  refine ⟨results, session, report, filed.map Prod.fst, ran, reported, ?_, filing.distinct, ?_, ?_⟩
  · intro r mem
    obtain ⟨entry, filed, k, told⟩ := exists_left_of_forall₂ each mem
    obtain ⟨plan, hplan, state⟩ := plan_of_entry entry filed
    have key : D.stateKey plan.state = k := by
      have same := (forState plan hplan).stateKey
      rw [state] at same ⊢
      exact Except.ok.inj (same.symm.trans told.asks.key)
    have counted : 0 < (countAll (D.allTasks o context (plans.flatMap Plan.paths)) {}).stateCount
        (D.stateKey plan.state) :=
      stateCount_pos_of_shortestPlans found hplan
    rw [told.status, covered, ← key, if_pos counted]
    split <;> decide
  · intro k
    simp only [filing.mem_keys_iff, List.mem_map, exists_exists_and_eq_and]
  · refine forall₂_map_left each fun entry mem r reported => ?_
    obtain ⟨k, told⟩ := reported
    have same := (filing.sound entry mem).2.symm.trans told.asks.key
    exact Except.ok.inj same ▸ told.asks.predicate

/-! ## A tour -/

/-- A carousel that can be stepped and told to skip; its events are known by which of the two they are. -/
def tourOptions : Options (Search.Place × Nat) String String CallLog :=
  { rideOptions with
    eventKey := fun e => .ok (if skips e then "skip" else "step")
    eventEntries := [(wildcard, .executor fun _ => note "move")] }

def tour : TestModel (Search.Place × Nat) String String CallLog := ⟨carousel, .ok tourOptions⟩

theorem eq_step_or_skip_of_tries {s : Search.Place × Nat} {e : Event}
    (h : Tries carousel (tourOptions.forSearch carousel) s e) : e = .ofType "step" ∨ e = .ofType "skip" := by
  obtain ⟨es, tried, mem⟩ := h
  have all : eventsAt carousel (tourOptions.forSearch carousel) s =
      .ok [.ofType "step", .ofType "skip", .ofType "step"] := rfl
  cases all.symm.trans tried
  simp only [List.mem_cons, List.not_mem_nil, or_false] at mem
  obtain rfl | rfl | rfl := mem
  exacts [.inl rfl, .inr rfl, .inl rfl]

theorem tour_unstopped :
    (Directions.answers carousel tourOptions).Unstopped carousel tourOptions "page" where
  states _ := Directions.forState_answers (fun _ _ _ => ⟨_, rfl⟩) ⟨_, rfl⟩ ⟨_, rfl⟩
  events _ tried := by
    obtain rfl | rfl := eq_step_or_skip_of_tries tried <;>
      exact Directions.forEvent_answers ⟨_, rfl⟩ ⟨_, rfl⟩ ⟨_, rfl⟩
  verifies _ _ mem := by
    obtain ⟨test, selected, rfl⟩ := List.mem_map.1 mem
    have registered : test ∈ tourOptions.stateTests.map Prod.snd :=
      (List.mem_append.1 selected).elim (Directions.tests_subset _ _ _ ·) nofun
    obtain ⟨entry, listed, rfl⟩ := List.mem_map.1 registered
    simp only [tourOptions, rideOptions, List.mem_cons, List.not_mem_nil, or_false] at listed
    obtain rfl | rfl := listed <;> exact note_succeeds _ _
  performs _ tried _ mem := by
    obtain rfl | rfl := eq_step_or_skip_of_tries tried <;>
      obtain rfl | rfl := List.mem_pair.1 mem <;> exact note_succeeds _ _

/-- A filter that leaves out the third place. -/
def beforeThird : Option (Place × Nat → Except Fault Bool) := some fun s => .ok (s.1 != .third)

/-- The four plans of the tour are for three keys, as the third place is two nodes. Two places are covered, and
the third is skipped. -/
theorem tour_covers_states : ∃ plans results session report,
    tour.plans [] = .ok plans ∧ plans.length = 4 ∧
      (tour.testPlans [] "page").run ⟨{}, []⟩ = (.ok results, session) ∧
      tour.getCoverage session.coverage (fun m => m.coversAllStates beforeThird) = .ok report ∧
      (∀ r ∈ report, r.2 ≠ .uncovered) ∧ report.map Prod.snd = [.covered, .covered, .skipped] := by
  have four : (tour.plans []).map List.length = .ok 4 := by rfl
  obtain ⟨plans, made, length⟩ := exists_of_map_eq_ok four
  have resolved : tour.resolve [] = .ok tourOptions := rfl
  have answers : ∀ {steps s}, Admitted tour.behavior (tourOptions.forSearch tour.behavior) steps s →
      ∃ skip, isSkipped beforeThird s = .ok skip := fun _ => ⟨_, rfl⟩
  obtain ⟨results, session, report, keys, run, reported, covered, -⟩ :=
    shortestPlans_cover_states (g := shortestPlans) resolved resolved rfl made tour_unstopped answers []
  have shown : (tour.getCoverage ((tour.testPlans [] "page").run ⟨{}, []⟩).2.coverage
      fun m => m.coversAllStates beforeThird).map (List.map Prod.snd) =
        .ok [.covered, .covered, .skipped] := by
    cbv
  rw [run, reported] at shown
  exact ⟨plans, results, session, report, made, length, run, reported, covered, Except.ok.inj shown⟩

end StateWalk.Model
