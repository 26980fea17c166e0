import StateWalk.Model.Criteria
import StateWalk.Proofs.Model.Discovered

/-!
# Reports on criteria

A report gives every criterion its status. `evaluate_eq_ok_iff` says which, and `testCoverage_cases` that coverage
is not there exactly if some criterion is missed. The report on the discoverable states says of each
of them whether its key is counted at all (`exists_stateReport`).
-/

namespace StateWalk

open Outcome Model

variable {σ κ γ ω : Type}

namespace Criterion

variable {coverage : Coverage σ κ}

/-- The criterion is not skipped, and its condition does not hold. -/
structure IsMissed (coverage : Coverage σ κ) (c : Criterion σ κ) : Prop where
  asked : c.skip = false
  unmet : c.predicate coverage = .ok false

theorem status_eq_ok_iff {c : Criterion σ κ} {status : Status} :
    c.status coverage = .ok status ↔ c.skip = true ∧ status = .skipped ∨
      c.skip = false ∧ ∃ met, c.predicate coverage = .ok met ∧
        status = if met then .covered else .uncovered := by
  rw [Criterion.status]
  cases c.skip with
  | true => simp [eq_comm]
  | false =>
    simp only [Bool.false_eq_true, if_false, bind_eq_ok_iff, false_and, true_and, false_or]
    refine exists_congr fun met => and_congr_right fun _ => ?_
    cases met <;> simp [pure, Except.pure, eq_comm]

/-- A criterion is uncovered exactly if it is missed. -/
theorem isMissed_iff {c : Criterion σ κ} {status : Status} (h : c.status coverage = .ok status) :
    c.IsMissed coverage ↔ status = .uncovered := by
  obtain ⟨skip, rfl⟩ | ⟨asked, met, predicate, rfl⟩ := status_eq_ok_iff.1 h
  · constructor
    · intro missed
      cases skip.symm.trans missed.asked
    · nofun
  · cases met with
    | true =>
      constructor
      · intro missed
        cases predicate.symm.trans missed.unmet
      · nofun
    | false => exact ⟨fun _ => rfl, fun _ => ⟨asked, predicate⟩⟩

theorem evaluate_eq_ok_iff {criteria : List (Criterion σ κ)} {report : List (Criterion σ κ × Status)} :
    evaluate coverage criteria = .ok report ↔
      List.Forall₂ (fun c r => r.1 = c ∧ c.status coverage = .ok r.2) criteria report := by
  rw [evaluate, mapM_eq_ok_iff_forall₂]
  have same : (fun (c : Criterion σ κ) r => (do return (c, ← c.status coverage)) = Except.ok (ε := Fault) r) =
      fun c r => r.1 = c ∧ c.status coverage = .ok r.2 := by
    funext c r
    rw [bind_eq_ok_iff, eq_iff_iff]
    constructor
    · rintro ⟨status, h, made⟩
      cases made
      exact ⟨rfl, h⟩
    · rintro ⟨rfl, h⟩
      exact ⟨r.2, h, rfl⟩
  rw [same]

/-- Criteria whose conditions answer are reported on. -/
theorem exists_evaluate {criteria : List (Criterion σ κ)}
    (answers : ∀ c ∈ criteria, c.skip = false → ∃ met, c.predicate coverage = .ok met) :
    ∃ report, evaluate coverage criteria = .ok report := by
  refine exists_mapM_eq_ok fun c mem => ?_
  cases skip : c.skip with
  | true =>
    have status : c.status coverage = .ok .skipped := status_eq_ok_iff.2 (.inl ⟨skip, rfl⟩)
    exact ⟨_, bind_eq_ok_iff.2 ⟨_, status, rfl⟩⟩
  | false =>
    obtain ⟨met, predicate⟩ := answers c mem skip
    have status := status_eq_ok_iff.2 (.inr ⟨skip, met, predicate, rfl⟩)
    exact ⟨_, bind_eq_ok_iff.2 ⟨_, status, rfl⟩⟩

/-- What is uncovered in a report are the criteria that are missed. -/
theorem uncovered_eq [DecidablePred (IsMissed coverage)] {criteria : List (Criterion σ κ)}
    {report : List (Criterion σ κ × Status)} (evaluated : evaluate coverage criteria = .ok report) :
    uncovered report = (criteria.filter fun c => decide (c.IsMissed coverage)).map Criterion.description := by
  rw [evaluate_eq_ok_iff] at evaluated
  induction evaluated with
  | nil => rfl
  | @cons c r criteria report head _ ih =>
    obtain ⟨rfl, status⟩ := head
    have missed := isMissed_iff status
    by_cases h : r.2 = .uncovered
    · rw [uncovered, List.filter_cons_of_pos (by simp [h]), List.filter_cons_of_pos (by simpa using missed.2 h),
        List.map_cons, List.map_cons]
      exact congrArg _ ih
    · rw [uncovered, List.filter_cons_of_neg (by simpa using h),
        List.filter_cons_of_neg (by simpa using fun m => h (missed.1 m))]
      exact ih

theorem requireCovered_eq (report : List (Criterion σ κ × Status)) :
    requireCovered report =
      if uncovered report = [] then .ok () else .error (.uncovered (uncovered report)) := by
  rw [requireCovered]
  cases uncovered report <;> simp

end Criterion

namespace TestModel

/-- Coverage that is asked for fails to be there exactly if some criterion is missed, and then the failure
lists those that are. -/
theorem testCoverage_cases {m : TestModel σ κ γ ω} {coverage : Coverage σ κ}
    [DecidablePred (Criterion.IsMissed coverage)] {criteria : Criteria σ κ γ ω}
    {made : List (Criterion σ κ)} (h : criteria m = .ok made)
    (answers : ∀ c ∈ made, c.skip = false → ∃ met, c.predicate coverage = .ok met) :
    (∀ c ∈ made, ¬ c.IsMissed coverage) ∧ m.testCoverage coverage criteria = .ok () ∨
      (∃ c ∈ made, c.IsMissed coverage) ∧ m.testCoverage coverage criteria = .error (.uncovered
        ((made.filter fun c => decide (c.IsMissed coverage)).map Criterion.description)) := by
  obtain ⟨report, evaluated⟩ := Criterion.exists_evaluate answers
  have reported : m.testCoverage coverage criteria = Criterion.requireCovered report := by
    rw [testCoverage, getCoverage, h]
    change (Criterion.evaluate coverage made >>= _) = _
    rw [evaluated]
    rfl
  rw [reported, Criterion.requireCovered_eq, Criterion.uncovered_eq evaluated]
  by_cases missed : ∃ c ∈ made, c.IsMissed coverage
  · refine .inr ⟨missed, if_neg fun none => ?_⟩
    obtain ⟨c, mem, missed⟩ := missed
    rw [List.map_eq_nil_iff, List.filter_eq_nil_iff] at none
    exact none c mem (decide_eq_true missed)
  · push Not at missed
    refine .inl ⟨missed, if_pos ?_⟩
    rw [List.map_eq_nil_iff, List.filter_eq_nil_iff]
    intro c mem
    rw [decide_eq_true_eq]
    exact missed c mem

variable [KeyType κ] {m : TestModel σ κ γ ω} {o : Options σ κ γ ω} {coverage : Coverage σ κ}

/-- The criterion asks whether the key of the state is counted, unless the filter rejects the state. -/
structure AsksForState (o : Options σ κ γ ω) (filter : Option (σ → Except Fault Bool)) (s : σ) (k : κ)
    (c : Criterion σ κ) : Prop where
  key : o.stateKey s none = .ok k
  skip : isSkipped filter s = .ok c.skip
  predicate : ∀ coverage : Coverage σ κ, c.predicate coverage = .ok (decide (0 < coverage.stateCount k))

/-- What a report says of a state. -/
structure ReportsState (o : Options σ κ γ ω) (filter : Option (σ → Except Fault Bool))
    (coverage : Coverage σ κ) (s : σ) (k : κ) (r : Criterion σ κ × Status) : Prop where
  asks : AsksForState o filter s k r.1
  status : r.2 = if r.1.skip then .skipped else if 0 < coverage.stateCount k then .covered else .uncovered

theorem AsksForState.status_eq {filter : Option (σ → Except Fault Bool)} {s : σ} {k : κ}
    {c : Criterion σ κ} (h : AsksForState o filter s k c) (coverage : Coverage σ κ) :
    c.status coverage =
      .ok (if c.skip then .skipped else if 0 < coverage.stateCount k then .covered else .uncovered) := by
  rw [Criterion.status_eq_ok_iff]
  cases c.skip with
  | true => exact .inl ⟨rfl, rfl⟩
  | false => exact .inr ⟨rfl, _, h.predicate coverage, by simp⟩

/-- Everything that a criterion for the state is made of answers: the functions that compute its key and its
description, and the filter. -/
structure Answers (b : Behavior σ κ) (o : Options σ κ γ ω) (filter : Option (σ → Except Fault Bool))
    (s : σ) : Prop where
  key : ∃ k, o.stateKey s none = .ok k
  description : ∃ k, Search.describer b o.toOptions s = .ok k
  filter : ∃ skip, isSkipped filter s = .ok skip

omit [KeyType κ] in
theorem stateKey_eq {settings : List (Setting σ κ γ ω)} (resolved : m.resolve settings = .ok o) (s : σ) :
    m.stateKey settings s = o.stateKey s none := by
  rw [stateKey, resolved]
  rfl

omit [KeyType κ] in
theorem describeState_eq {settings : List (Setting σ κ γ ω)} (resolved : m.resolve settings = .ok o)
    (s : σ) : m.describeState settings s = Search.describer m.behavior o.toOptions s := by
  rw [describeState, resolved]
  rfl

variable [LawfulKeyType κ]

theorem visitsOfState_eq (c : Coverage σ κ) (k : κ) : c.visitsOfState k = .ok (c.stateCount k) := by
  rw [Coverage.visitsOfState, LawfulKeyType.check_eq_ok]
  rfl

variable {filter : Option (σ → Except Fault Bool)} {states : List σ}

/-- There is a criterion for each state if everything that it is made of answers. -/
theorem exists_coversAllStates (resolved : m.resolve [] = .ok o) (found : m.allStates [] = .ok states)
    (answers : ∀ s ∈ states, Answers m.behavior o filter s) :
    ∃ criteria, m.coversAllStates filter = .ok criteria ∧
      List.Forall₂ (fun s c => ∃ k, AsksForState o filter s k c) states criteria := by
  simp only [coversAllStates, found, stateKey_eq resolved, describeState_eq resolved]
  obtain ⟨criteria, made⟩ : ∃ criteria, states.mapM (fun s => do
      let key ← o.stateKey s none
      let shown ← Search.describer m.behavior o.toOptions s
      let skip ← isSkipped filter s
      return (⟨fun c => do return decide (0 < (← c.visitsOfState key)),
        s!"Visits {KeyType.label shown}", skip⟩ : Criterion σ κ)) = .ok criteria := by
    refine exists_mapM_eq_ok fun s mem => ?_
    obtain ⟨⟨k, key⟩, ⟨shown, described⟩, skip, asked⟩ := answers s mem
    rw [key, described, asked]
    exact ⟨_, rfl⟩
  refine ⟨criteria, made, (mapM_eq_ok_iff_forall₂.1 made).imp fun s c h => ?_⟩
  simp only [bind_eq_ok_iff] at h
  obtain ⟨k, key, shown, -, skip, asked, made⟩ := h
  cases made
  refine ⟨k, key, asked, fun coverage => ?_⟩
  simp only [visitsOfState_eq]
  rfl

/-- There is a report on the states under the same condition. -/
theorem exists_stateReport (resolved : m.resolve [] = .ok o) (found : m.allStates [] = .ok states)
    (answers : ∀ s ∈ states, Answers m.behavior o filter s) (coverage : Coverage σ κ) :
    ∃ report, m.getCoverage coverage (fun m => m.coversAllStates filter) = .ok report ∧
      List.Forall₂ (fun s r => ∃ k, ReportsState o filter coverage s k r) states report := by
  obtain ⟨criteria, made, asks⟩ := exists_coversAllStates resolved found answers
  obtain ⟨report, evaluated⟩ : ∃ report, Criterion.evaluate coverage criteria = .ok report := by
    refine Criterion.exists_evaluate fun c mem _ => ?_
    obtain ⟨s, -, k, asks⟩ := exists_left_of_forall₂ asks mem
    exact ⟨_, asks.predicate coverage⟩
  refine ⟨report, bind_eq_ok_iff.2 ⟨criteria, made, evaluated⟩, ?_⟩
  have statuses := Criterion.evaluate_eq_ok_iff.1 evaluated
  clear made evaluated found answers
  induction asks generalizing report with
  | nil =>
    cases statuses
    exact .nil
  | @cons s c states criteria head _ ih =>
    cases statuses with
    | cons reported statuses =>
      obtain ⟨k, asks⟩ := head
      obtain ⟨rfl, status⟩ := reported
      exact .cons ⟨k, asks, Except.ok.inj (status.symm.trans (asks.status_eq coverage))⟩ (ih _ statuses)

end TestModel

end StateWalk
