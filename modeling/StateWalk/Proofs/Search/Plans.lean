import StateWalk.Proofs.Search.Admitted

/-!
# Plans of arrivals

What a plan says about the arrivals that it is made of. `Plan.ForNode` is what the plans of both
searches have in common, and `Admitted` gives the facts about single paths: replaying admitted steps
leads through the states that the steps record (`Admitted.replay`, `Admitted.take`).
-/

namespace StateWalk

open Search Outcome

variable {σ κ : Type}

/-- Every event type is a text. -/
def HasTexts (steps : List (Step σ)) : Prop := ∀ step ∈ steps, step.event.type.text?.isSome

theorem isSome_text?_of_textsFrom {place : Nat} {vs : List Value} {texts : List String}
    (h : textsFrom place vs = .ok texts) : ∀ v ∈ vs, v.text?.isSome := by
  induction vs generalizing place texts with
  | nil => simp
  | cons v vs ih =>
    rw [textsFrom] at h
    split at h
    next s hs =>
      obtain ⟨rest, hrest, -⟩ := bind_eq_ok_iff.1 h
      intro w hw
      rcases List.mem_cons.1 hw with rfl | hw
      · simp [hs]
      · exact ih hrest w hw
    next => cases h

theorem hasTexts_of_describeSteps {steps : List (Step σ)} {text : String}
    (h : describeSteps steps = .ok text) : HasTexts steps := by
  cases steps with
  | nil => simp [HasTexts]
  | cons step steps =>
    obtain ⟨texts, h, -⟩ := bind_eq_ok_iff.1 h
    intro step' mem
    exact isSome_text?_of_textsFrom h _ (List.mem_map_of_mem mem)

/-! ## Paths -/

theorem Search.Arrival.path_eq_ok_iff {a : Arrival σ} {p : Path σ} :
    a.path = .ok p ↔
      ∃ text, describeSteps a.steps = .ok text ∧ p = ⟨a.state, a.steps, a.depth, text⟩ := by
  have unnamed : ("" : String).isEmpty = true := by decide
  simp only [Arrival.path, Path.ofSteps, Arrival.steps, Arrival.depth, unnamed, if_true,
    bind_eq_ok_iff, Option.getD_none, List.length_reverse]
  constructor
  · rintro ⟨text, h, eq⟩
    cases eq
    exact ⟨text, h, rfl⟩
  · rintro ⟨text, h, rfl⟩
    exact ⟨text, h, rfl⟩

theorem Search.Arrival.weight_of_path {a : Arrival σ} {p : Path σ} (h : a.path = .ok p) :
    p.weight = a.depth := by
  obtain ⟨_, -, rfl⟩ := Arrival.path_eq_ok_iff.1 h
  rfl

theorem Search.Arrival.hasTexts_of_path {a : Arrival σ} {p : Path σ} (h : a.path = .ok p) :
    HasTexts p.steps := by
  obtain ⟨text, described, rfl⟩ := Arrival.path_eq_ok_iff.1 h
  exact hasTexts_of_describeSteps described

namespace Search

variable {b : Behavior σ κ} {o : Options σ κ} {steps : List (Step σ)} {s : σ}

theorem Admitted.replay (h : Admitted b o steps s) : b.replay steps = .ok s := by
  induction h with
  | initial => rfl
  | send _ sent ih =>
    simp only [Behavior.replay_append, ih, List.map_cons, List.map_nil, bind_eq_ok_iff]
    exact ⟨_, rfl, by simp only [Behavior.runFrom, sent.leads]; rfl⟩

/-- The first steps of admitted ones are admitted, and lead to the state of the step that follows. -/
theorem Admitted.take (h : Admitted b o steps s) {i : Nat} (hi : i < steps.length) :
    Admitted b o (steps.take i) steps[i].state := by
  induction h with
  | initial => simp at hi
  | @send steps s t e before sent ih =>
    rw [List.length_append, List.length_singleton] at hi
    rcases Nat.lt_or_eq_of_le (Nat.le_of_lt_succ hi) with hlt | rfl
    · rw [List.take_append_of_le_length (by omega), List.getElem_append_left hlt]
      exact ih hlt
    · simpa using before

theorem Admitted.tries (h : Admitted b o steps s) : ∀ step ∈ steps, Tries b o step.state step.event := by
  induction h with
  | initial => simp
  | send _ sent ih =>
    intro step mem
    rcases List.mem_append.1 mem with mem | mem
    · exact ih step mem
    · rw [List.mem_singleton] at mem
      exact mem ▸ sent.tried

theorem Admitted.passes (h : Admitted b o steps s) (some_step : steps ≠ []) : o.admits s = .ok true := by
  cases h with
  | initial => exact absurd rfl some_step
  | send _ sent => exact sent.passes

/-- After any number of steps, but at least one, the state reached passes the filter. -/
theorem Admitted.passes_take (h : Admitted b o steps s) {i : Nat} (pos : 0 < i) (hi : i ≤ steps.length) :
    ∃ t, b.replay (steps.take i) = .ok t ∧ o.admits t = .ok true := by
  rcases Nat.lt_or_eq_of_le hi with hlt | rfl
  · have some_step : steps.take i ≠ [] := List.ne_nil_of_length_pos (by rw [List.length_take]; omega)
    exact ⟨_, (h.take hlt).replay, (h.take hlt).passes some_step⟩
  · rw [List.take_length]
    exact ⟨s, h.replay, h.passes (List.ne_nil_of_length_pos pos)⟩

end Search

/-! ## Plans -/

/-- The plan of a node: its paths are arrivals at the node by admitted steps, and its state is that of
the first one. -/
structure Plan.ForNode (b : Behavior σ κ) (o : Options σ κ) (k : κ) (plan : Plan σ) : Prop where
  first : ∃ p others, plan.paths = p :: others ∧ plan.state = p.state
  arrivals : ∀ p ∈ plan.paths, ∃ a : Arrival σ, a.At b o k ∧ a.path = .ok p

theorem Search.planOf_eq_ok_iff [KeyType κ] {describe : σ → Except Fault κ} {first : Arrival σ}
    {others : List (Arrival σ)} {plan : Plan σ} :
    planOf describe first others = .ok plan ↔ ∃ paths description,
      List.Forall₂ (fun a p => Arrival.path a = .ok p) (first :: others) paths ∧
        describe first.state = .ok description ∧
        plan = ⟨first.state, paths, "reaches " ++ KeyType.label description⟩ := by
  simp only [planOf, bind_eq_ok_iff, mapM_eq_ok_iff_forall₂]
  constructor
  · rintro ⟨paths, hpaths, description, described, eq⟩
    cases eq
    exact ⟨paths, description, hpaths, described, rfl⟩
  · rintro ⟨paths, description, hpaths, described, rfl⟩
    exact ⟨paths, hpaths, description, described, rfl⟩

theorem Search.forNode_of_planOf [KeyType κ] {b : Behavior σ κ} {o : Options σ κ} {k : κ}
    {describe : σ → Except Fault κ} {first : Arrival σ} {others : List (Arrival σ)} {plan : Plan σ}
    (h : planOf describe first others = .ok plan) (arrivals : ∀ a ∈ first :: others, a.At b o k) :
    plan.ForNode b o k := by
  obtain ⟨paths, description, hpaths, -, rfl⟩ := planOf_eq_ok_iff.1 h
  constructor
  · cases hpaths with
    | cons hp _ =>
      obtain ⟨text, -, rfl⟩ := Arrival.path_eq_ok_iff.1 hp
      exact ⟨_, _, rfl, rfl⟩
  · intro p hp
    obtain ⟨a, ha, path⟩ := exists_left_of_forall₂ hpaths hp
    exact ⟨a, arrivals a ha, path⟩

end StateWalk
