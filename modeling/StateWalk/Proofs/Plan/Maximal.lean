import StateWalk.Plan.Maximal
import StateWalk.Proofs.Outcome

/-!
# What maximal paths leave out

A path is left out only if its event keys begin those of a path that is kept. The paths are taken one after
the other, and whatever is kept stays kept, so one look at a path settles the question: it is kept, or it
begins a path that is (`exists_begun`).

`maximalPaths_eq_ok` says so of the paths of plans: those that are kept were there before, and each of those
that were there begins one that is kept.
-/

namespace StateWalk.Plan

open Outcome

variable {σ κ : Type} {eventKey : Event → Except Fault κ}

/-- The event keys of the first path begin those of the second. -/
def Begins (eventKey : Event → Except Fault κ) (p q : Path σ) : Prop :=
  ∃ ks ls, eventKeys eventKey p = .ok ks ∧ eventKeys eventKey q = .ok ls ∧ ks <+: ls

/-! ## Keeping paths -/

section

variable [KeyType κ] [LawfulKeyType κ]

/-- One look at a path: it begins one that is kept already, or it is kept as well. -/
theorem keepUnlessBeginning_cases (kept : List (Placed κ)) (entry : Placed κ) :
    (∃ other ∈ kept, entry.2 <+: other.2) ∧ keepUnlessBeginning kept entry = kept ∨
      (∀ other ∈ kept, ¬ entry.2 <+: other.2) ∧ keepUnlessBeginning kept entry = kept ++ [entry] := by
  rw [keepUnlessBeginning]
  by_cases begins : kept.any (fun other => KeyType.begins entry.2 other.2) = true
  · rw [if_pos begins]
    simp only [List.any_eq_true, KeyType.begins_iff] at begins
    exact .inl ⟨begins, rfl⟩
  · rw [if_neg begins]
    simp only [List.any_eq_true, KeyType.begins_iff, not_exists, not_and] at begins
    exact .inr ⟨begins, rfl⟩

theorem subset_keepUnlessBeginning (kept : List (Placed κ)) (entry : Placed κ) :
    kept ⊆ keepUnlessBeginning kept entry := by
  obtain ⟨-, eq⟩ | ⟨-, eq⟩ := keepUnlessBeginning_cases kept entry
  · rw [eq]
    exact List.Subset.refl kept
  · rw [eq]
    exact List.subset_append_left kept [entry]

/-- What is kept stays kept. -/
theorem subset_foldl_keep (kept entries : List (Placed κ)) :
    kept ⊆ entries.foldl keepUnlessBeginning kept := by
  induction entries generalizing kept with
  | nil => exact List.Subset.refl kept
  | cons entry entries ih => exact List.Subset.trans (subset_keepUnlessBeginning kept entry) (ih _)

theorem mem_of_mem_foldl_keep {kept entries : List (Placed κ)} {entry : Placed κ}
    (h : entry ∈ entries.foldl keepUnlessBeginning kept) : entry ∈ kept ∨ entry ∈ entries := by
  induction entries generalizing kept with
  | nil => exact .inl h
  | cons first entries ih =>
    obtain mem | mem := ih h
    · obtain ⟨-, eq⟩ | ⟨-, eq⟩ := keepUnlessBeginning_cases kept first
      · exact .inl (eq ▸ mem)
      · rw [eq, List.mem_append, List.mem_singleton] at mem
        exact mem.imp_right fun first_eq => List.mem_cons.2 (.inl first_eq)
    · exact .inr (List.mem_cons_of_mem first mem)

/-- Every path begins one that is kept in the end, be it itself. -/
theorem exists_begun (kept : List (Placed κ)) {entries : List (Placed κ)} {entry : Placed κ}
    (h : entry ∈ entries) : ∃ other ∈ entries.foldl keepUnlessBeginning kept, entry.2 <+: other.2 := by
  induction entries generalizing kept with
  | nil => cases h
  | cons first entries ih =>
    rcases List.mem_cons.1 h with rfl | h
    · obtain ⟨⟨other, mem, begins⟩, eq⟩ | ⟨-, eq⟩ := keepUnlessBeginning_cases kept entry
      · exact ⟨other, subset_foldl_keep _ entries (eq.symm ▸ mem), begins⟩
      · exact ⟨entry, subset_foldl_keep _ entries (eq ▸ List.mem_concat_self), List.prefix_rfl⟩
    · exact ih _ h

/-! ## Kept places -/

omit [KeyType κ] [LawfulKeyType κ] in
theorem mem_longestFirst_iff {keys : List (List κ)} {entry : Placed κ} :
    entry ∈ longestFirst (keys.zipIdx.map fun entry => (entry.2, entry.1)) ↔
      keys[entry.1]? = some entry.2 := by
  rw [longestFirst, (List.mergeSort_perm _ _).mem_iff, List.mem_map]
  constructor
  · rintro ⟨entry, mem, rfl⟩
    exact List.mem_zipIdx_iff_getElem?.1 mem
  · intro at_place
    exact ⟨(entry.2, entry.1), List.mem_zipIdx_iff_getElem?.2 at_place, rfl⟩

/-- The keys of every path begin those at a place that is kept. -/
theorem exists_keptPlace {keys : List (List κ)} {ks : List κ} (h : ks ∈ keys) :
    ∃ i ∈ keptPlaces keys, ∃ ls, keys[i]? = some ls ∧ ks <+: ls := by
  obtain ⟨i, at_place⟩ := List.mem_iff_getElem?.1 h
  have entered : (i, ks) ∈ longestFirst (keys.zipIdx.map fun entry => (entry.2, entry.1)) :=
    mem_longestFirst_iff.2 at_place
  obtain ⟨⟨j, ls⟩, kept, begins⟩ := exists_begun [] entered
  have mem := (mem_of_mem_foldl_keep kept).resolve_left List.not_mem_nil
  exact ⟨j, List.mem_map.2 ⟨(j, ls), kept, rfl⟩, ls, mem_longestFirst_iff.1 mem, begins⟩

end

/-! ## The paths of plans -/

/-- The paths that are selected, of all plans together. -/
theorem paths_select (places : List Nat) (place : Nat) (plans : List (Plan σ)) :
    (select places place plans).flatMap Plan.paths =
      (((plans.flatMap Plan.paths).zipIdx place).filter fun p => places.contains p.2).map Prod.fst := by
  induction plans generalizing place with
  | nil => rfl
  | cons plan plans ih =>
    rw [List.flatMap_cons, List.zipIdx_append, List.filter_append, List.map_append, ← ih, select]
    by_cases none : (((plan.paths.zipIdx place).filter fun p => places.contains p.2).map Prod.fst).isEmpty
    · rw [if_pos none, List.isEmpty_iff.1 none]
      rfl
    · rw [if_neg none]
      rfl

theorem mem_paths_select {places : List Nat} {plans : List (Plan σ)} {p : Path σ} :
    p ∈ (select places 0 plans).flatMap Plan.paths ↔
      ∃ i ∈ places, (plans.flatMap Plan.paths)[i]? = some p := by
  rw [paths_select]
  simp only [List.mem_map, List.mem_filter, List.contains_iff_mem, Prod.exists, exists_and_right,
    exists_eq_right, List.mem_zipIdx_iff_getElem?]
  exact ⟨fun ⟨i, at_place, mem⟩ => ⟨i, mem, at_place⟩, fun ⟨i, mem, at_place⟩ => ⟨i, at_place, mem⟩⟩

variable [KeyType κ]

theorem exists_maximalPaths {plans : List (Plan σ)}
    (h : ∀ p ∈ plans.flatMap Plan.paths, ∃ ks, eventKeys eventKey p = .ok ks) :
    ∃ kept, maximalPaths plans eventKey = .ok kept := by
  obtain ⟨keys, computed⟩ := exists_mapM_eq_ok h
  exact ⟨_, bind_eq_ok_iff.2 ⟨keys, computed, rfl⟩⟩

/-- The maximal paths are among the paths, and every path begins one of them. -/
theorem maximalPaths_eq_ok [LawfulKeyType κ] {plans kept : List (Plan σ)}
    (h : maximalPaths plans eventKey = .ok kept) :
    kept.flatMap Plan.paths ⊆ plans.flatMap Plan.paths ∧
      ∀ p ∈ plans.flatMap Plan.paths, ∃ q ∈ kept.flatMap Plan.paths, Begins eventKey p q := by
  obtain ⟨keys, computed, eq⟩ := bind_eq_ok_iff.1 h
  cases eq
  have aligned := mapM_eq_ok_iff_forall₂.1 computed
  constructor
  · intro p hp
    obtain ⟨i, -, at_place⟩ := mem_paths_select.1 hp
    exact List.mem_of_getElem? at_place
  · intro p hp
    obtain ⟨ks, hks, computed_p⟩ := exists_right_of_forall₂ aligned hp
    obtain ⟨i, kept, ls, at_place, begins⟩ := exists_keptPlace hks
    obtain ⟨q, at_q, computed_q⟩ := exists_getElem?_of_forall₂ aligned.flip at_place
    exact ⟨q, mem_paths_select.2 ⟨i, kept, at_q⟩, ks, ls, computed_p, computed_q, begins⟩

end StateWalk.Plan
