import Mathlib.Data.List.Induction
import StateWalk.Proofs.Search.Plans
import StateWalk.Search.Simple

/-!
# Arrivals by node

`arrivalsByNode` files the arrivals of all visits under their nodes. `Grouped` says what it gives: for
each node that was visited the arrivals at it, in the order of the visits, and the nodes in the order
in which they were met first. Plans are made of these groups one by one (`simplePlansOf_eq_ok`).
-/

namespace StateWalk.Search

open Outcome

variable {σ κ : Type}

/-- Going through the keys, `k` is met before `l`. -/
def MetBefore (met : List κ) (k l : κ) : Prop :=
  ∃ before after, met = before ++ k :: after ∧ l ∉ before

/-- The keys are those that were met, each once, in the order in which they were met first. -/
structure FirstMet (met keys : List κ) : Prop where
  distinct : keys.Nodup
  mem_iff : ∀ k, k ∈ keys ↔ k ∈ met
  ordered : keys.Pairwise (MetBefore met)

theorem MetBefore.append {met : List κ} {k l : κ} (h : MetBefore met k l) (more : List κ) :
    MetBefore (met ++ more) k l := by
  obtain ⟨before, after, rfl, unmet⟩ := h
  exact ⟨before, after ++ more, by simp, unmet⟩

theorem metBefore_of_mem_of_not_mem {met : List κ} {k l : κ} (hk : k ∈ met) (hl : l ∉ met) :
    MetBefore met k l := by
  obtain ⟨before, after, rfl⟩ := List.append_of_mem hk
  exact ⟨before, after, rfl, fun mem => hl (List.mem_append_left _ mem)⟩

/-- A key is met again. -/
theorem FirstMet.concat_known {met keys : List κ} (h : FirstMet met keys) {k : κ} (known : k ∈ keys) :
    FirstMet (met ++ [k]) keys := by
  refine ⟨h.distinct, fun l => ?_, h.ordered.imp fun before => before.append _⟩
  rw [h.mem_iff, List.mem_append, List.mem_singleton]
  constructor
  · exact .inl
  · rintro (mem | rfl)
    · exact mem
    · exact (h.mem_iff _).1 known

/-- A key is met for the first time. -/
theorem FirstMet.concat_new {met keys : List κ} (h : FirstMet met keys) {k : κ} (new : k ∉ keys) :
    FirstMet (met ++ [k]) (keys ++ [k]) := by
  have unmet : k ∉ met := fun mem => new ((h.mem_iff k).2 mem)
  refine ⟨?_, fun l => by rw [List.mem_append, List.mem_append, h.mem_iff], ?_⟩
  · rw [List.nodup_append]
    refine ⟨h.distinct, List.pairwise_singleton _ _, ?_⟩
    rintro l hl _ hk rfl
    exact new (List.mem_singleton.1 hk ▸ hl)
  · rw [List.pairwise_append]
    refine ⟨h.ordered.imp fun before => before.append _, List.pairwise_singleton _ _, ?_⟩
    intro l hl _ hk
    rw [List.mem_singleton.1 hk]
    exact (metBefore_of_mem_of_not_mem ((h.mem_iff l).1 hl) unmet).append _

variable [KeyType κ]

/-- The arrivals at a node, in the order of the visits. -/
def arrivalsAt (visits : List (Visit σ κ)) (k : κ) : List (Arrival σ) :=
  (visits.filter fun v => KeyType.same v.key k).map Visit.arrival

/-- The groups hold the arrivals at each node that was visited. -/
structure Grouped (visits : List (Visit σ κ)) (groups : List (κ × List (Arrival σ))) : Prop where
  arrivals : ∀ g ∈ groups, g.2 = arrivalsAt visits g.1
  nodes : FirstMet (visits.map Visit.key) (groups.map Prod.fst)

theorem arrivalsAt_concat (visits : List (Visit σ κ)) (v : Visit σ κ) (k : κ) :
    arrivalsAt (visits ++ [v]) k =
      arrivalsAt visits k ++ if KeyType.same v.key k then [v.arrival] else [] := by
  unfold arrivalsAt
  rw [List.filter_append, List.map_append]
  cases h : KeyType.same v.key k <;> simp [h]

section

variable [LawfulKeyType κ]

theorem arrivalsAt_eq_nil_iff {visits : List (Visit σ κ)} {k : κ} :
    arrivalsAt visits k = [] ↔ k ∉ visits.map Visit.key := by
  simp [arrivalsAt, LawfulKeyType.same_iff]

theorem any_same_iff {groups : List (κ × List (Arrival σ))} {k : κ} :
    (groups.any fun g => KeyType.same g.1 k) = true ↔ k ∈ groups.map Prod.fst := by
  simp [LawfulKeyType.same_iff]

/-- A visit of a node that is known. -/
theorem Grouped.addKnown {visits : List (Visit σ κ)} {groups : List (κ × List (Arrival σ))}
    (h : Grouped visits groups) (v : Visit σ κ) (known : v.key ∈ groups.map Prod.fst) :
    Grouped (visits ++ [v]) (groups.map fun g =>
      if KeyType.same g.1 v.key then (g.1, g.2 ++ [v.arrival]) else g) := by
  have keys : (groups.map fun g =>
      if KeyType.same g.1 v.key then (g.1, g.2 ++ [v.arrival]) else g).map Prod.fst =
        groups.map Prod.fst := by
    rw [List.map_map]
    refine List.map_congr_left fun g _ => ?_
    simp only [Function.comp]
    split <;> rfl
  constructor
  · intro g hg
    obtain ⟨g', hg', rfl⟩ := List.mem_map.1 hg
    rw [arrivalsAt_concat]
    by_cases same : g'.1 = v.key
    · rw [if_pos ((LawfulKeyType.same_iff _ _).2 same),
        if_pos ((LawfulKeyType.same_iff _ _).2 same.symm), h.arrivals g' hg']
    · rw [if_neg fun h => same ((LawfulKeyType.same_iff _ _).1 h),
        if_neg fun h => same ((LawfulKeyType.same_iff _ _).1 h).symm, h.arrivals g' hg',
        List.append_nil]
  · rw [keys, List.map_append]
    exact h.nodes.concat_known known

/-- A visit of a new node. -/
theorem Grouped.addNew {visits : List (Visit σ κ)} {groups : List (κ × List (Arrival σ))}
    (h : Grouped visits groups) (v : Visit σ κ) (unknown : v.key ∉ groups.map Prod.fst) :
    Grouped (visits ++ [v]) (groups ++ [(v.key, [v.arrival])]) := by
  have unmet : v.key ∉ visits.map Visit.key := fun mem => unknown ((h.nodes.mem_iff _).2 mem)
  constructor
  · intro g hg
    rw [arrivalsAt_concat]
    rcases List.mem_append.1 hg with hg | hg
    · have other : v.key ≠ g.1 := fun eq => unknown (eq ▸ List.mem_map_of_mem hg)
      rw [if_neg fun h => other ((LawfulKeyType.same_iff _ _).1 h), List.append_nil,
        h.arrivals g hg]
    · rw [List.mem_singleton] at hg
      subst hg
      rw [if_pos ((LawfulKeyType.same_iff _ _).2 rfl), arrivalsAt_eq_nil_iff.2 unmet,
        List.nil_append]
  · rw [List.map_append, List.map_append]
    exact h.nodes.concat_new unknown

theorem grouped_arrivalsByNode (visits : List (Visit σ κ)) :
    Grouped visits (arrivalsByNode visits) := by
  -- The groups are built up visit by visit, so the induction takes the last visit away.
  induction visits using List.reverseRecOn with
  | nil => exact ⟨by simp [arrivalsByNode], .nil, fun _ => .rfl, .nil⟩
  | append_singleton visits v ih =>
    have step : arrivalsByNode (visits ++ [v]) = addVisit (arrivalsByNode visits) v := by
      simp [arrivalsByNode]
    rw [step, addVisit]
    split
    next known => exact ih.addKnown v (any_same_iff.1 known)
    next unknown => exact ih.addNew v fun mem => unknown (any_same_iff.2 mem)

end

/-! ## Plans of the groups -/

variable {describe : σ → Except Fault κ}

theorem byDepth_eq_nil_iff {arrivals : List (Arrival σ)} : byDepth arrivals = [] ↔ arrivals = [] := by
  rw [← List.length_eq_zero_iff, byDepth, List.length_mergeSort, List.length_eq_zero_iff]

/-- The plan of a node with arrivals: one plan is made of all of them, and of its paths those with a
signature of their own are kept. -/
theorem simplePlan?_eq_ok {arrivals : List (Arrival σ)} (some_arrival : arrivals ≠ [])
    {r : Option (Plan σ)} (h : simplePlan? describe arrivals = .ok r) :
    ∃ first others full plan, byDepth arrivals = first :: others ∧
      planOf describe first others = .ok full ∧ full.distinctSignatures = .ok plan ∧ r = some plan := by
  unfold simplePlan? at h
  split at h
  next none => exact absurd (byDepth_eq_nil_iff.1 none) some_arrival
  next first others sorted =>
    obtain ⟨full, made, h⟩ := bind_eq_ok_iff.1 h
    obtain ⟨plan, kept, eq⟩ := bind_eq_ok_iff.1 h
    cases eq
    exact ⟨first, others, full, plan, sorted, made, kept, rfl⟩

theorem simplePlansOf_eq_ok {groups : List (κ × List (Arrival σ))} {plans : List (Plan σ)}
    (some_arrival : ∀ g ∈ groups, g.2 ≠ []) (h : simplePlansOf describe groups = .ok plans) :
    List.Forall₂ (fun g plan => simplePlan? describe g.2 = .ok (some plan)) groups plans := by
  induction groups generalizing plans with
  | nil =>
    cases h
    exact .nil
  | cons g groups ih =>
    obtain ⟨r, made, h⟩ := bind_eq_ok_iff.1 h
    obtain ⟨rest, run, eq⟩ := bind_eq_ok_iff.1 h
    obtain ⟨-, -, -, plan, -, -, -, rfl⟩ := simplePlan?_eq_ok (some_arrival g List.mem_cons_self) made
    cases eq
    exact .cons made (ih (fun g hg => some_arrival g (List.mem_cons_of_mem _ hg)) run)

end StateWalk.Search
