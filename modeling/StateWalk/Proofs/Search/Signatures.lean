import StateWalk.Plan.Signature
import StateWalk.Proofs.Selection
import StateWalk.Proofs.Search.Plans

/-!
# First paths of their kind

Where all event types are texts, two signatures are one key exactly when the texts are the same. So of
the paths with the same texts `firstOfSignature` keeps the first one (`firstsOf_of_firstOfSignature`).
-/

namespace StateWalk

open Outcome Selection

/-- The texts of the event types, in order. -/
def typesOf {σ : Type} (steps : List (Step σ)) : List (Option String) :=
  steps.map fun step => step.event.type.text?

theorem Value.eq_text_of_isSome {v : Value} (h : v.text?.isSome) :
    ∃ s, v = .text s ∨ ∃ naming, v = .textMember naming s := by
  cases v with
  | text s => exact ⟨s, .inl rfl⟩
  | textMember naming s => exact ⟨s, .inr ⟨naming, rfl⟩⟩
  | _ => cases h

theorem Value.agree_iff_text?_eq {filed : Bool} {v w : Value} (hv : v.text?.isSome)
    (hw : w.text?.isSome) : v.agree filed w = true ↔ v.text? = w.text? := by
  obtain ⟨s, rfl | ⟨_, rfl⟩⟩ := Value.eq_text_of_isSome hv <;>
    obtain ⟨t, rfl | ⟨_, rfl⟩⟩ := Value.eq_text_of_isSome hw
  all_goals
    show (s == t) = true ↔ some s = some t
    rw [beq_iff_eq, Option.some.injEq]

theorem Value.allAgree_iff_map_text?_eq {filed : Bool} {vs ws : List Value}
    (hvs : ∀ v ∈ vs, v.text?.isSome) (hws : ∀ w ∈ ws, w.text?.isSome) :
    Value.allAgree filed vs ws = true ↔ vs.map Value.text? = ws.map Value.text? := by
  induction vs generalizing ws with
  | nil => cases ws <;> simp [Value.allAgree]
  | cons v vs ih =>
    cases ws with
    | nil => simp [Value.allAgree]
    | cons w ws =>
      rw [List.forall_mem_cons] at hvs hws
      rw [Value.allAgree, Bool.and_eq_true, Value.agree_iff_text?_eq hvs.1 hws.1, ih hvs.2 hws.2,
        List.map_cons, List.map_cons, List.cons_eq_cons]

variable {σ : Type}

theorem HasTexts.signature {p : Path σ} (h : HasTexts p.steps) : ∀ v ∈ p.signature, v.text?.isSome := by
  intro v hv
  obtain ⟨step, mem, rfl⟩ := List.mem_map.1 hv
  exact h step mem

theorem Path.map_text?_signature (p : Path σ) : p.signature.map Value.text? = typesOf p.steps := by
  simp [Path.signature, typesOf]

theorem same_signature_iff {p q : Path σ} (hp : HasTexts p.steps) (hq : HasTexts q.steps) :
    KeyType.same (Value.tuple p.signature) (Value.tuple q.signature) = true ↔
      typesOf p.steps = typesOf q.steps := by
  rw [← p.map_text?_signature, ← q.map_text?_signature]
  exact Value.allAgree_iff_map_text?_eq hp.signature hq.signature

namespace Plan

/-- The signatures seen are those with these types. -/
def SeenTypes (σ : Type) (seen : List Value) (types : List (List (Option String))) : Prop :=
  ∀ p : Path σ, HasTexts p.steps →
    (KeyType.isAmong seen (.tuple p.signature) = true ↔ typesOf p.steps ∈ types)

theorem seenTypes_nil : SeenTypes σ [] [] := by
  intro p _
  simp [KeyType.isAmong]

theorem SeenTypes.cons {seen : List Value} {types : List (List (Option String))}
    (h : SeenTypes σ seen types) {q : Path σ} (hq : HasTexts q.steps) :
    SeenTypes σ (.tuple q.signature :: seen) (typesOf q.steps :: types) := by
  intro p hp
  have rest := h p hp
  unfold KeyType.isAmong at rest ⊢
  rw [List.any_cons, Bool.or_eq_true, same_signature_iff hq hp, rest, List.mem_cons, eq_comm]

/-- What becomes of the first path: its signature is seen, or it is kept. -/
theorem firstOfSignature_cons_eq_ok {seen : List Value} {p : Path σ} {ps kept : List (Path σ)}
    (h : firstOfSignature seen (p :: ps) = .ok kept) :
    KeyType.isAmong seen (.tuple p.signature) = true ∧ firstOfSignature seen ps = .ok kept ∨
      KeyType.isAmong seen (.tuple p.signature) = false ∧ ∃ rest, kept = p :: rest ∧
        firstOfSignature (.tuple p.signature :: seen) ps = .ok rest := by
  obtain ⟨_, -, h⟩ := bind_eq_ok_iff.1 h
  split at h
  next taken => exact .inl ⟨taken, h⟩
  next new =>
    obtain ⟨rest, run, eq⟩ := bind_eq_ok_iff.1 h
    cases eq
    exact .inr ⟨Bool.eq_false_iff.2 new, rest, rfl, run⟩

theorem sublist_of_firstOfSignature {seen : List Value} {ps kept : List (Path σ)}
    (h : firstOfSignature seen ps = .ok kept) : kept.Sublist ps := by
  induction ps generalizing seen kept with
  | nil =>
    cases h
    exact .slnil
  | cons p ps ih =>
    obtain ⟨-, run⟩ | ⟨-, rest, rfl, run⟩ := firstOfSignature_cons_eq_ok h
    · exact (ih run).cons p
    · exact (ih run).cons_cons p

/-- The paths are those of some items, and `types` are those of the signatures seen. -/
theorem firstsOf_of_firstOfSignature {α : Type} (pathOf : α → Path σ) {items : List α}
    {seen : List Value} {types : List (List (Option String))} {kept : List (Path σ)}
    (agrees : SeenTypes σ seen types) (texts : ∀ a ∈ items, HasTexts (pathOf a).steps)
    (h : firstOfSignature seen (items.map pathOf) = .ok kept) :
    ∃ firsts, kept = firsts.map pathOf ∧
      FirstsOf (fun a => typesOf (pathOf a).steps) types items firsts := by
  induction items generalizing seen types kept with
  | nil =>
    cases h
    exact ⟨[], rfl, .nil⟩
  | cons a items ih =>
    rw [List.forall_mem_cons] at texts
    obtain ⟨taken, run⟩ | ⟨new, rest, rfl, run⟩ := firstOfSignature_cons_eq_ok h
    · obtain ⟨firsts, rfl, spec⟩ := ih agrees texts.2 run
      exact ⟨firsts, rfl, spec.skip ((agrees _ texts.1).1 taken)⟩
    · obtain ⟨firsts, rfl, spec⟩ := ih (agrees.cons texts.1) texts.2 run
      refine ⟨a :: firsts, rfl, spec.keep fun mem => ?_⟩
      exact Bool.false_ne_true (new.symm.trans ((agrees _ texts.1).2 mem))

theorem distinctSignatures_eq_ok {plan kept : Plan σ} (h : plan.distinctSignatures = .ok kept) :
    ∃ paths, firstOfSignature [] plan.paths = .ok paths ∧ kept = { plan with paths } := by
  obtain ⟨paths, run, eq⟩ := bind_eq_ok_iff.1 h
  cases eq
  exact ⟨paths, run, rfl⟩

/-- What is said of a plan for a node holds of what is left of it. -/
theorem ForNode.distinctSignatures {κ : Type} {b : Behavior σ κ} {o : Search.Options σ κ} {k : κ}
    {plan kept : Plan σ} (h : plan.ForNode b o k) (made : plan.distinctSignatures = .ok kept) :
    kept.ForNode b o k := by
  obtain ⟨paths, run, rfl⟩ := distinctSignatures_eq_ok made
  constructor
  · obtain ⟨p, others, eq, state⟩ := h.first
    rw [eq] at run
    obtain ⟨taken, -⟩ | ⟨-, rest, rfl, -⟩ := firstOfSignature_cons_eq_ok run
    · cases taken
    · exact ⟨p, rest, rfl, state⟩
  · intro p hp
    exact h.arrivals p ((sublist_of_firstOfSignature run).subset hp)

end Plan

end StateWalk
