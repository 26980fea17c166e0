import StateWalk.Model.Basic
import StateWalk.Proofs.Canonical.Reading
import StateWalk.Proofs.Outcome

/-!
# Compound keys

The key of a step joins the keys of its state and its event, and the key after an event joins the key of a state
and the type of the event, each time with nothing but a bar between blanks. The type of an event may hold such a
bar itself, and so may the texts inside a state. The parts are still told apart, because no canonical text goes
on with a blank to another one (`barred_inj`).
-/

namespace StateWalk

namespace Value

/-- A key and what is joined to it by a bar. -/
def barred (key rest : String) : String := key ++ " | " ++ rest

theorem exists_render_of_key {v : Value} {k : String} (h : v.key = .ok k) :
    ∃ c : Canonical, k.toList = c.render := by
  obtain ⟨-, rfl⟩ := key_eq_ok_iff.1 h
  exact ⟨v.canonical, String.toList_ofList⟩

theorem toList_barred (key rest : String) :
    (barred key rest).toList = key.toList ++ ' ' :: '|' :: ' ' :: rest.toList := by
  simp [barred]

/-- No word goes on with a blank. -/
theorem endsWord_blank (cs : List Char) : Canonical.EndsWord (' ' :: cs) := by
  rintro c ⟨⟩
  rfl

variable {v w : Value} {k l rest rest' : String}

/-- **What is joined to a key by a bar is told apart from the key.** -/
theorem barred_inj (hv : v.key = .ok k) (hw : w.key = .ok l) :
    barred k rest = barred l rest' ↔ k = l ∧ rest = rest' := by
  obtain ⟨c, left⟩ := exists_render_of_key hv
  obtain ⟨d, right⟩ := exists_render_of_key hw
  constructor
  · intro eq
    rw [← String.toList_inj, toList_barred, toList_barred, left, right] at eq
    obtain ⟨keys, tails⟩ := Canonical.render_append_inj (endsWord_blank _) (endsWord_blank _) eq
    rw [← left, ← right, String.toList_inj] at keys
    simp only [List.cons.injEq, true_and, String.toList_inj] at tails
    exact ⟨keys, tails⟩
  · rintro ⟨rfl, rfl⟩
    rfl

/-- No key is another key with something joined to it. -/
theorem ne_barred (hv : v.key = .ok k) (hw : w.key = .ok l) (rest : String) : k ≠ barred l rest := by
  obtain ⟨c, left⟩ := exists_render_of_key hv
  obtain ⟨d, right⟩ := exists_render_of_key hw
  intro eq
  rw [← String.toList_inj, toList_barred, left, right, ← List.append_nil c.render] at eq
  have nothing : Canonical.EndsWord [] := nofun
  obtain ⟨-, none⟩ := Canonical.render_append_inj nothing (endsWord_blank _) eq
  cases none

/-- The key after an event of a textual type. -/
theorem keyAfter_event (hv : v.key = .ok k) {e : Event} {type : String} (text : e.type = .text type) :
    v.keyAfter e.toValue = .ok (barred k type) := by
  obtain ⟨_, payload⟩ := e
  obtain rfl : _ = Value.text type := text
  rw [keyAfter, hv]
  rfl

theorem keyAfter_null (hv : v.key = .ok k) : v.keyAfter .null = .ok k := by
  rw [keyAfter, hv]
  rfl

end Value

namespace TestModel

open Model

variable {σ γ ω : Type}

/-- States are known by the canonical texts of their values, and events by their own. -/
structure KnownByText (value : σ → Value) (o : Search.Options σ String) : Prop where
  stateKey : ∀ s e, o.stateKey s e = (value s).key
  eventKey : ∀ e, o.eventKey e = e.key

/-- This is how they are known as long as nobody says otherwise. -/
theorem knownByText_ofKey (value : σ → Value) :
    KnownByText value (Search.Options.ofKey fun s => (value s).key) where
  stateKey := Search.Options.stateKey_ofKey fun s => (value s).key
  eventKey := Search.Options.eventKey_ofKey fun s => (value s).key

theorem KnownByText.stepKey {value : σ → Value} {o : Search.Options σ String} (known : KnownByText value o)
    {step : Step σ} {k j : String} (state : (value step.state).key = .ok k) (event : step.event.key = .ok j) :
    stepKey o step = .ok (Value.barred k j) := by
  rw [TestModel.stepKey, known.stateKey, known.eventKey, state, event]
  rfl

/-- **Compound keys are unambiguous.** As long as states and events are known by their canonical texts, two
steps have one key exactly if their states have and their events have. Two states that events of textual types
led to have one key after these events exactly if they have one key and the types are equal, and none has the
key of a state that no event led to. -/
theorem compound_keys_unambiguous {m : TestModel σ String γ ω} {settings : List (Setting σ String γ ω)}
    {o : Options σ String γ ω} (resolved : m.resolve settings = .ok o) {value : σ → Value}
    (known : KnownByText value o.toOptions) {s₁ s₂ : σ} {k₁ k₂ : String} (keyed₁ : (value s₁).key = .ok k₁)
    (keyed₂ : (value s₂).key = .ok k₂) {e₁ e₂ : Event} {type₁ type₂ : String}
    (text₁ : e₁.type = .text type₁) (text₂ : e₂.type = .text type₂) :
    (∀ j₁ j₂, e₁.key = .ok j₁ → e₂.key = .ok j₂ →
      ∃ t₁ t₂, m.transitionKey settings ⟨s₁, e₁⟩ = .ok t₁ ∧ m.transitionKey settings ⟨s₂, e₂⟩ = .ok t₂ ∧
        (t₁ = t₂ ↔ k₁ = k₂ ∧ j₁ = j₂)) ∧
    ∃ a₁ a₂, (value s₁).keyAfter e₁.toValue = .ok a₁ ∧ (value s₂).keyAfter e₂.toValue = .ok a₂ ∧
      (a₁ = a₂ ↔ k₁ = k₂ ∧ e₁.type = e₂.type) ∧ (value s₁).keyAfter .null = .ok k₁ ∧ k₁ ≠ a₂ := by
  have keys : ∀ step, m.transitionKey settings step = TestModel.stepKey o.toOptions step := by
    intro step
    rw [transitionKey, resolved]
    rfl
  constructor
  · intro j₁ j₂ event₁ event₂
    rw [keys, keys]
    exact ⟨_, _, known.stepKey keyed₁ event₁, known.stepKey keyed₂ event₂, Value.barred_inj keyed₁ keyed₂⟩
  · refine ⟨_, _, Value.keyAfter_event keyed₁ text₁, Value.keyAfter_event keyed₂ text₂, ?_,
      Value.keyAfter_null keyed₁, Value.ne_barred keyed₁ keyed₂ type₂⟩
    rw [Value.barred_inj keyed₁ keyed₂, text₁, text₂, Value.text.injEq]

/-! ## A forecast -/

/-- The weather is a text, and what comes after it is not modelled. -/
def forecast : TestModel Value String Unit Unit where
  behavior := { initial := .text "noon", transition := fun s _ => .ok s }
  options := .ok (Options.ofKey Value.key)

/-- Rain at noon that stops is told apart from noon and the end of the rain. -/
theorem forecast_unambiguous :
    (∃ t₁ t₂, forecast.transitionKey [] ⟨.text "noon | rain", .ofType "stop"⟩ = .ok t₁ ∧
      forecast.transitionKey [] ⟨.text "noon", .ofType "rain | stop"⟩ = .ok t₂ ∧ t₁ ≠ t₂) ∧
    ∃ a₁ a₂, (Value.text "noon | rain").keyAfter (Event.ofType "stop").toValue = .ok a₁ ∧
      (Value.text "noon").keyAfter (Event.ofType "rain | stop").toValue = .ok a₂ ∧ a₁ ≠ a₂ := by
  have rainy : (Value.text "noon | rain").key = .ok "\"noon | rain\"" := rfl
  have noon : (Value.text "noon").key = .ok "\"noon\"" := rfl
  have stop : (Event.ofType "stop").type = .text "stop" := rfl
  have rainStops : (Event.ofType "rain | stop").type = .text "rain | stop" := rfl
  have resolved : forecast.resolve [] = .ok (Options.ofKey Value.key) := rfl
  obtain ⟨steps, a₁, a₂, after₁, after₂, same_after, -⟩ :=
    compound_keys_unambiguous resolved (knownByText_ofKey id) rainy noon stop rainStops
  obtain ⟨t₁, t₂, step₁, step₂, same_step⟩ := steps _ _ rfl rfl
  refine ⟨⟨t₁, t₂, step₁, step₂, fun same => ?_⟩, a₁, a₂, after₁, after₂, fun same => ?_⟩
  · exact absurd (same_step.1 same).1 (by decide)
  · exact absurd (same_after.1 same).1 (by decide)

end TestModel

end StateWalk
