import Mathlib.Data.List.Forall2
import StateWalk.Reading

/-!
# Computations that succeed

A computation made of others succeeds exactly when each of them does. `bind_eq_ok_iff` opens a sequence
of two, `mapM_eq_ok_iff_forall₂` the work on the items of a list, which gives one result for each item.
-/

namespace StateWalk.Outcome

variable {α β γ : Type}

theorem bind_eq_ok_iff {r : Except Fault α} {f : α → Except Fault β} {b : β} :
    (r >>= f) = .ok b ↔ ∃ a, r = .ok a ∧ f a = .ok b := by
  cases r <;> simp [bind, Except.bind]

theorem exists_of_map_eq_ok {r : Except Fault α} {f : α → β} {b : β} (h : r.map f = .ok b) :
    ∃ a, r = .ok a ∧ f a = b := by
  cases r with
  | error e => cases h
  | ok a => exact ⟨a, rfl, Except.ok.inj h⟩

theorem eq_ok_getD {r : Except Fault α} (h : ∃ a, r = .ok a) (d : α) : r = .ok (r.toOption.getD d) := by
  obtain ⟨a, rfl⟩ := h
  rfl

theorem mapM_eq_ok_iff_forall₂ {f : α → Except Fault β} {as : List α} {bs : List β} :
    as.mapM f = .ok bs ↔ List.Forall₂ (fun a b => f a = .ok b) as bs := by
  induction as generalizing bs with
  | nil => cases bs <;> simp [pure, Except.pure]
  | cons a as ih =>
    simp only [List.mapM_cons, bind_eq_ok_iff, ih]
    constructor
    · rintro ⟨b, hb, bs', hbs, heq⟩
      cases heq
      exact .cons hb hbs
    · intro h
      cases h with
      | cons hb hbs => exact ⟨_, hb, _, hbs, rfl⟩

theorem exists_mapM_eq_ok {f : α → Except Fault β} {as : List α} (h : ∀ a ∈ as, ∃ b, f a = .ok b) :
    ∃ bs, as.mapM f = .ok bs := by
  induction as with
  | nil => exact ⟨[], rfl⟩
  | cons a as ih =>
    rw [List.forall_mem_cons] at h
    obtain ⟨b, hb⟩ := h.1
    obtain ⟨bs, hbs⟩ := ih h.2
    exact ⟨b :: bs, by rw [List.mapM_cons, hb, hbs]; rfl⟩

theorem mapM_congr {f g : α → Except Fault β} {as : List α} (h : ∀ a ∈ as, f a = g a) :
    as.mapM f = as.mapM g := by
  induction as with
  | nil => rfl
  | cons a as ih =>
    rw [List.forall_mem_cons] at h
    rw [List.mapM_cons, List.mapM_cons, h.1, ih h.2]

theorem exists_left_of_forall₂ {R : α → β → Prop} {as : List α} {bs : List β}
    (h : List.Forall₂ R as bs) {b : β} (hb : b ∈ bs) : ∃ a ∈ as, R a b := by
  induction h with
  | nil => cases hb
  | cons hab _ ih =>
    rcases List.mem_cons.1 hb with rfl | hb
    · exact ⟨_, List.mem_cons_self, hab⟩
    · obtain ⟨a, ha, hab⟩ := ih hb
      exact ⟨a, List.mem_cons_of_mem _ ha, hab⟩

theorem exists_right_of_forall₂ {R : α → β → Prop} {as : List α} {bs : List β}
    (h : List.Forall₂ R as bs) {a : α} (ha : a ∈ as) : ∃ b ∈ bs, R a b :=
  exists_left_of_forall₂ h.flip ha

/-- An item has its result at the same place. -/
theorem exists_getElem?_of_forall₂ {R : α → β → Prop} {as : List α} {bs : List β}
    (h : List.Forall₂ R as bs) {i : Nat} {a : α} (at_i : as[i]? = some a) :
    ∃ b, bs[i]? = some b ∧ R a b := by
  obtain ⟨in_as, rfl⟩ := List.getElem?_eq_some_iff.1 at_i
  have in_bs : i < bs.length := h.length_eq ▸ in_as
  exact ⟨bs[i], List.getElem?_eq_getElem in_bs, h.get in_as in_bs⟩

/-- What follows for images of the items. -/
theorem forall₂_map_left {R : α → β → Prop} {S : γ → β → Prop} {f : α → γ} {as : List α} {bs : List β}
    (h : List.Forall₂ R as bs) (imp : ∀ a ∈ as, ∀ b, R a b → S (f a) b) :
    List.Forall₂ S (as.map f) bs := by
  induction h with
  | nil => exact .nil
  | cons head _ ih =>
    rw [List.forall_mem_cons] at imp
    exact .cons (imp.1 _ head) (ih imp.2)

/-- Items that belong together, side by side. -/
theorem exists_pairs_of_forall₂ {R : α → β → Prop} {as : List α} {bs : List β}
    (h : List.Forall₂ R as bs) :
    ∃ pairs : List (α × β), pairs.map Prod.fst = as ∧ pairs.map Prod.snd = bs ∧
      ∀ pair ∈ pairs, R pair.1 pair.2 := by
  induction h with
  | nil => exact ⟨[], rfl, rfl, by simp⟩
  | @cons a b as bs head _ ih =>
    obtain ⟨pairs, rfl, rfl, all⟩ := ih
    exact ⟨(a, b) :: pairs, rfl, rfl, List.forall_mem_cons.2 ⟨head, all⟩⟩

theorem forall₂_append_left {R : α → β → Prop} {as as' : List α} {bs : List β}
    (h : List.Forall₂ R (as ++ as') bs) :
    ∃ cs cs', bs = cs ++ cs' ∧ List.Forall₂ R as cs ∧ List.Forall₂ R as' cs' := by
  induction as generalizing bs with
  | nil => exact ⟨[], bs, rfl, .nil, h⟩
  | cons a as ih =>
    cases h with
    | cons head tail =>
      obtain ⟨cs, cs', rfl, first, second⟩ := ih tail
      exact ⟨_ :: cs, cs', rfl, .cons head first, second⟩

/-- Doing something for the items of a list fails only where it fails for one of them. -/
theorem exists_of_forM_eq_error {f : α → Except Fault Unit} {as : List α} {e : Fault}
    (h : as.forM f = .error e) : ∃ a ∈ as, f a = .error e := by
  induction as with
  | nil => cases h
  | cons a as ih =>
    cases ha : f a with
    | error e' =>
      rw [List.forM_eq_forM, List.forM_cons, ha] at h
      cases h
      exact ⟨a, List.mem_cons_self, ha⟩
    | ok u =>
      rw [List.forM_eq_forM, List.forM_cons, ha] at h
      obtain ⟨a', mem, ha'⟩ := ih h
      exact ⟨a', List.mem_cons_of_mem _ mem, ha'⟩

end StateWalk.Outcome
