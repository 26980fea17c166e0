import StateWalk.Proofs.Search.SimpleVisits

/-!
# Searches whose questions are answered

A search asks the caller's functions about the states that it reaches. `Responds` says that they answer
there, none of them failing. Then the successors of a state can be computed, and where the types of all
events are texts as well, a plan can be made of whatever arrivals a search has collected.
-/

namespace StateWalk

open Search Outcome

variable {σ κ : Type} {b : Behavior σ κ} {o : Options σ κ}

/-- Nothing fails that a search asks about admitted steps. -/
structure Search.Responds (b : Behavior σ κ) (o : Options σ κ) : Prop where
  start : ∃ k, o.stateKey b.initial none = .ok k
  events : ∀ {steps s}, Admitted b o steps s → ∃ es, eventsAt b o s = .ok es
  transition : ∀ {steps s e}, Admitted b o steps s → Tries b o s e → ∃ t, b.transition s e = .ok t
  filter : ∀ {steps s e t}, Admitted b o steps s → Tries b o s e → b.transition s e = .ok t →
    ∃ passes, o.admits t = .ok passes
  key : ∀ {steps s e t}, Admitted b o steps s → Sends b o s e t → ∃ k, o.stateKey t (some e) = .ok k
  describe : ∀ {steps s}, Admitted b o steps s → ∃ k, describer b o s = .ok k

/-- The types of the events tried are texts, so that paths can be described. -/
def Search.TextTypes (b : Behavior σ κ) (o : Options σ κ) : Prop :=
  ∀ {steps s e}, Admitted b o steps s → Tries b o s e → e.type.text?.isSome

/-! ## Paths and plans can be made -/

theorem exists_textsFrom (place : Nat) {vs : List Value} (h : ∀ v ∈ vs, v.text?.isSome) :
    ∃ texts, textsFrom place vs = .ok texts := by
  induction vs generalizing place with
  | nil => exact ⟨[], rfl⟩
  | cons v vs ih =>
    rw [List.forall_mem_cons] at h
    obtain ⟨s, hs⟩ := Option.isSome_iff_exists.1 h.1
    obtain ⟨texts, run⟩ := ih (place + 1) h.2
    exact ⟨s :: texts, by rw [textsFrom, hs, run]; rfl⟩

theorem HasTexts.exists_describeSteps {steps : List (Step σ)} (h : HasTexts steps) :
    ∃ text, describeSteps steps = .ok text := by
  cases steps with
  | nil => exact ⟨_, rfl⟩
  | cons step steps =>
    have types : ∀ v ∈ (step :: steps).map fun s => s.event.type, v.text?.isSome := by
      intro v hv
      obtain ⟨s, mem, rfl⟩ := List.mem_map.1 hv
      exact h s mem
    obtain ⟨texts, run⟩ := exists_textsFrom 0 types
    exact ⟨_, bind_eq_ok_iff.2 ⟨texts, run, rfl⟩⟩

theorem Search.Arrival.exists_path {a : Arrival σ} (h : HasTexts a.steps) : ∃ p, a.path = .ok p := by
  obtain ⟨text, described⟩ := h.exists_describeSteps
  exact ⟨_, Arrival.path_eq_ok_iff.2 ⟨text, described, rfl⟩⟩

theorem Search.exists_planOf [KeyType κ] {describe : σ → Except Fault κ} {first : Arrival σ}
    {others : List (Arrival σ)} (texts : ∀ a ∈ first :: others, HasTexts a.steps)
    (described : ∃ k, describe first.state = .ok k) : ∃ plan, planOf describe first others = .ok plan := by
  obtain ⟨paths, made⟩ := exists_mapM_eq_ok fun a ha => Arrival.exists_path (texts a ha)
  obtain ⟨k, hk⟩ := described
  exact ⟨_, planOf_eq_ok_iff.2 ⟨paths, k, mapM_eq_ok_iff_forall₂.1 made, hk, rfl⟩⟩

theorem Value.changeableAmong?_eq_none {vs : List Value} (h : ∀ v ∈ vs, v.text?.isSome) :
    Value.changeableAmong? vs = none := by
  induction vs with
  | nil => rfl
  | cons v vs ih =>
    rw [List.forall_mem_cons] at h
    obtain ⟨s, rfl | ⟨_, rfl⟩⟩ := Value.eq_text_of_isSome h.1
    all_goals
      rw [Value.changeableAmong?, ih h.2]
      rfl

/-- A signature of texts can be filed. -/
theorem HasTexts.checkKey_signature {p : Path σ} (h : HasTexts p.steps) :
    (Value.tuple p.signature).checkKey = .ok () := by
  rw [Value.checkKey, Value.changeable?, Value.changeableAmong?_eq_none h.signature]

theorem Plan.exists_firstOfSignature {ps : List (Path σ)} (texts : ∀ p ∈ ps, HasTexts p.steps)
    (seen : List Value) : ∃ kept, firstOfSignature seen ps = .ok kept := by
  induction ps generalizing seen with
  | nil => exact ⟨[], rfl⟩
  | cons p ps ih =>
    rw [List.forall_mem_cons] at texts
    have checked := texts.1.checkKey_signature
    by_cases taken : KeyType.isAmong seen (.tuple p.signature) = true
    · obtain ⟨kept, run⟩ := ih texts.2 seen
      exact ⟨kept, bind_eq_ok_iff.2 ⟨(), checked, by rw [if_pos taken, run]⟩⟩
    · obtain ⟨kept, run⟩ := ih texts.2 (.tuple p.signature :: seen)
      exact ⟨p :: kept, bind_eq_ok_iff.2 ⟨(), checked, by rw [if_neg taken, run]; rfl⟩⟩

namespace Search

section

variable [KeyType κ] {describe : σ → Except Fault κ}

theorem exists_simplePlan? {arrivals : List (Arrival σ)} (texts : ∀ a ∈ arrivals, HasTexts a.steps)
    (described : ∀ a ∈ arrivals, ∃ k, describe a.state = .ok k) :
    ∃ plan, simplePlan? describe arrivals = .ok plan := by
  unfold simplePlan?
  split
  next => exact ⟨none, rfl⟩
  next first others sorted =>
    have mem : ∀ a ∈ first :: others, a ∈ arrivals :=
      fun a ha => (byDepth_perm arrivals).mem_iff.1 (sorted ▸ ha)
    obtain ⟨plan, made⟩ :=
      exists_planOf (fun a ha => texts a (mem a ha)) (described first (mem first List.mem_cons_self))
    have texts_of_paths : ∀ p ∈ plan.paths, HasTexts p.steps := by
      obtain ⟨paths, _, path, -, rfl⟩ := planOf_eq_ok_iff.1 made
      intro p hp
      obtain ⟨a, -, ha⟩ := exists_left_of_forall₂ path hp
      exact Arrival.hasTexts_of_path ha
    obtain ⟨kept, run⟩ := Plan.exists_firstOfSignature texts_of_paths []
    have distinct : plan.distinctSignatures = .ok { plan with paths := kept } :=
      bind_eq_ok_iff.2 ⟨kept, run, rfl⟩
    exact ⟨_, bind_eq_ok_iff.2 ⟨plan, made, bind_eq_ok_iff.2 ⟨_, distinct, rfl⟩⟩⟩

theorem exists_simplePlansOf {groups : List (κ × List (Arrival σ))}
    (texts : ∀ g ∈ groups, ∀ a ∈ g.2, HasTexts a.steps)
    (described : ∀ g ∈ groups, ∀ a ∈ g.2, ∃ k, describe a.state = .ok k) :
    ∃ plans, simplePlansOf describe groups = .ok plans := by
  induction groups with
  | nil => exact ⟨[], rfl⟩
  | cons g groups ih =>
    rw [List.forall_mem_cons] at texts described
    obtain ⟨plan, made⟩ := exists_simplePlan? texts.1 described.1
    obtain ⟨rest, run⟩ := ih texts.2 described.2
    exact ⟨_, bind_eq_ok_iff.2 ⟨plan, made, bind_eq_ok_iff.2 ⟨rest, run, rfl⟩⟩⟩

end

theorem TextTypes.hasTexts (h : TextTypes b o) {steps : List (Step σ)} {s : σ}
    (admitted : Admitted b o steps s) : HasTexts steps := by
  induction admitted with
  | initial => simp [HasTexts]
  | send before sent ih =>
    intro step mem
    rcases List.mem_append.1 mem with mem | mem
    · exact ih step mem
    · rw [List.mem_singleton] at mem
      exact mem ▸ h before sent.tried

namespace Responds

theorem exists_successor? (h : Responds b o) {steps : List (Step σ)} {s : σ} {e : Event}
    (admitted : Admitted b o steps s) (tried : Tries b o s e) {enters : κ → Except Fault Bool}
    (asked : ∀ k, ∃ entered, enters k = .ok entered) :
    ∃ r, successor? b o enters s e = .ok r := by
  obtain ⟨t, leads⟩ := h.transition admitted tried
  obtain ⟨passes, filtered⟩ := h.filter admitted tried leads
  cases passes with
  | false => exact ⟨none, successor?_eq_ok_iff.2 ⟨t, leads, .inl ⟨filtered, rfl⟩⟩⟩
  | true =>
    obtain ⟨k, key⟩ := h.key admitted ⟨tried, leads, filtered⟩
    obtain ⟨entered, answer⟩ := asked k
    cases entered with
    | false => exact ⟨none, successor?_eq_ok_iff.2 ⟨t, leads, .inr ⟨filtered, k, key, .inl ⟨answer, rfl⟩⟩⟩⟩
    | true => exact ⟨_, successor?_eq_ok_iff.2 ⟨t, leads, .inr ⟨filtered, k, key, .inr ⟨answer, rfl⟩⟩⟩⟩

theorem exists_successors (h : Responds b o) {steps : List (Step σ)} {s : σ}
    (admitted : Admitted b o steps s) {enters : κ → Except Fault Bool}
    (asked : ∀ k, ∃ entered, enters k = .ok entered) : ∃ found, successors b o enters s = .ok found := by
  obtain ⟨es, tried⟩ := h.events admitted
  obtain ⟨rs, made⟩ :=
    exists_mapM_eq_ok fun e he => h.exists_successor? admitted ⟨es, tried, he⟩ asked
  exact ⟨_, successors_eq_ok_iff.2 ⟨es, rs, tried, mapM_eq_ok_iff_forall₂.1 made, rfl⟩⟩

end Responds

end Search

end StateWalk
