import Mathlib.Data.List.Permutation
import StateWalk.Proofs.Plan.Maximal
import StateWalk.Proofs.Selection

/-!
# Which paths are kept

Maximal paths are found by taking the paths from the longest to the shortest and looking only at those kept
so far. `mem_keptPlaces_iff` says that this order plays no part in the answer: a path is kept exactly if no
longer path goes on from it and no earlier one has the same event keys. A path that could rule another one
out but is dropped itself begins a third path, which is kept and rules out both.

So the paths that are kept do not begin one another, and keeping the maximal paths of what is left changes
nothing (`maximalPaths_keeps_maximal`).
-/

namespace StateWalk.Plan

open Outcome Selection

variable {σ κ : Type} {eventKey : Event → Except Fault κ}

/-- The path at this place is maximal among paths with these event keys: no longer path begins with its keys,
and no earlier path has the same ones. -/
def IsMaximal (keys : List (List κ)) (i : Nat) : Prop :=
  ∃ ks, keys[i]? = some ks ∧ (∀ ls ∈ keys, ks <+: ls → ¬ ks.length < ls.length) ∧
    ∀ j < i, keys[j]? ≠ some ks

/-- The place among all paths of the path at place `q` of the plan at place `p`. -/
def placeOf (plans : List (Plan σ)) (p q : Nat) : Nat := ((plans.take p).flatMap Plan.paths).length + q

/-- The paths at places that are kept. -/
def pathsAt (isKept : Nat → Bool) (paths : List (Path σ)) : List (Path σ) :=
  (paths.zipIdx.filter fun p => isKept p.2).map Prod.fst

/-- The plans with the paths at places that are kept, but not the plans that are left without paths. -/
def keepAt (isKept : Nat → Bool) (plans : List (Plan σ)) : List (Plan σ) :=
  (plans.mapIdx fun p plan =>
    { plan with paths := pathsAt (fun q => isKept (placeOf plans p q)) plan.paths }).filter
      fun plan => !plan.paths.isEmpty

/-! ## The order of looking at paths -/

/-- The first path is looked at before the second one: it is longer, or as long and earlier. -/
def LooksFirst (e e' : Placed κ) : Prop :=
  e'.2.length ≤ e.2.length ∧ (e.2.length ≤ e'.2.length → e.1 < e'.1)

theorem LooksFirst.not_symm {e e' : Placed κ} (h : LooksFirst e e') : ¬ LooksFirst e' e := by
  obtain ⟨shorter, earlier⟩ := h
  rintro ⟨shorter', earlier'⟩
  exact Nat.lt_asymm (earlier shorter') (earlier' shorter)

theorem pairwise_zipIdx {α : Type} (l : List α) : l.zipIdx.Pairwise fun e e' => e.2 < e'.2 := by
  apply List.pairwise_map.1
  rw [List.zipIdx_map_snd]
  exact List.pairwise_lt_range'

theorem pairwise_longestFirst (keys : List (List κ)) :
    (longestFirst (keys.zipIdx.map fun entry => (entry.2, entry.1))).Pairwise LooksFirst := by
  have inOrder : (keys.zipIdx.map fun entry => (entry.2, entry.1)).Pairwise fun e e' => e.1 < e'.1 :=
    List.pairwise_map.2 (pairwise_zipIdx keys)
  have sorted := pairwise_mergeSort (fun e e' : Placed κ => decide (e'.2.length ≤ e.2.length))
    (fun a b c => by simp only [decide_eq_true_eq]; omega)
    (fun a b => by simp only [Bool.or_eq_true, decide_eq_true_eq]; omega) inOrder
  simp only [decide_eq_true_eq] at sorted
  exact sorted

/-- A maximal path begins no path but itself and later ones with the same keys. -/
theorem isMaximal_iff {keys : List (List κ)} {i : Nat} :
    IsMaximal keys i ↔ ∃ ks, keys[i]? = some ks ∧
      ∀ j ls, keys[j]? = some ls → ks <+: ls → ls = ks ∧ i ≤ j := by
  refine exists_congr fun ks => and_congr_right fun at_i => ?_
  constructor
  · rintro ⟨longest, first⟩ j ls at_j begins
    have same : ls = ks :=
      (begins.eq_of_length_le (Nat.le_of_not_lt (longest ls (List.mem_of_getElem? at_j) begins))).symm
    subst same
    exact ⟨rfl, Nat.le_of_not_lt fun earlier => first j earlier at_j⟩
  · intro only
    refine ⟨fun ls mem begins longer => ?_, fun j earlier at_j => ?_⟩
    · obtain ⟨j, at_j⟩ := List.mem_iff_getElem?.1 mem
      rw [(only j ls at_j begins).1] at longer
      exact Nat.lt_irrefl _ longer
    · exact Nat.not_le.2 earlier (only j ks at_j List.prefix_rfl).2

section

variable [KeyType κ] [LawfulKeyType κ]

/-- A path is kept unless it begins one that was looked at before, be that one kept or not. -/
theorem mem_foldl_keep_iff {kept entries : List (Placed κ)} (ordered : entries.Pairwise LooksFirst)
    (before : ∀ k ∈ kept, ∀ e ∈ entries, LooksFirst k e) {entry : Placed κ} :
    entry ∈ entries.foldl keepUnlessBeginning kept ↔ entry ∈ kept ∨ entry ∈ entries ∧
      ∀ other ∈ kept ++ entries, entry.2 <+: other.2 → ¬ LooksFirst other entry := by
  induction entries generalizing kept with
  | nil => simp
  | cons first entries ih =>
    rw [List.pairwise_cons] at ordered
    have before_rest : ∀ k ∈ kept, ∀ e ∈ entries, LooksFirst k e :=
      fun k hk e he => before k hk e (List.mem_cons_of_mem _ he)
    rw [List.foldl_cons]
    obtain ⟨⟨longer, kept_longer, begins⟩, eq⟩ | ⟨begins_none, eq⟩ := keepUnlessBeginning_cases kept first
    · rw [eq, ih ordered.2 before_rest]
      refine or_congr_right ⟨fun ⟨mem, free⟩ => ?_, fun ⟨mem, free⟩ => ?_⟩
      · refine ⟨List.mem_cons_of_mem _ mem, fun other hother begins_other => ?_⟩
        rw [List.mem_append, List.mem_cons] at hother
        obtain hother | rfl | hother := hother
        · exact free other (List.mem_append_left _ hother) begins_other
        · -- what begins the dropped path begins the longer one as well, which was kept before it
          have begins_longer := begins_other.trans begins
          exact absurd (before_rest longer kept_longer entry mem)
            (free longer (List.mem_append_left _ kept_longer) begins_longer)
        · exact free other (List.mem_append_right _ hother) begins_other
      · rcases List.mem_cons.1 mem with rfl | mem
        · exact absurd (before longer kept_longer entry List.mem_cons_self)
            (free longer (List.mem_append_left _ kept_longer) begins)
        · refine ⟨mem, fun other hother => free other ?_⟩
          exact (List.Sublist.append_left (List.sublist_cons_self first entries) kept).subset hother
    · have before' : ∀ k ∈ kept ++ [first], ∀ e ∈ entries, LooksFirst k e := by
        intro k hk e he
        rcases List.mem_append.1 hk with hk | hk
        · exact before_rest k hk e he
        · exact List.mem_singleton.1 hk ▸ ordered.1 e he
      have split : kept ++ [first] ++ entries = kept ++ first :: entries := by simp
      rw [eq, ih ordered.2 before', split, List.mem_append, List.mem_singleton, or_assoc, List.mem_cons]
      refine or_congr_right ⟨?_, ?_⟩
      · rintro (rfl | ⟨mem, free⟩)
        · refine ⟨.inl rfl, fun other hother begins => ?_⟩
          rw [List.mem_append, List.mem_cons] at hother
          obtain hother | rfl | hother := hother
          · exact absurd begins (begins_none other hother)
          · exact fun looks => looks.not_symm looks
          · exact (ordered.1 other hother).not_symm
        · exact ⟨.inr mem, free⟩
      · rintro ⟨rfl | mem, free⟩
        · exact .inl rfl
        · exact .inr ⟨mem, free⟩

/-! ## Kept places are maximal -/

/-- The places that are kept are those of maximal paths. -/
theorem mem_keptPlaces_iff {keys : List (List κ)} {i : Nat} : i ∈ keptPlaces keys ↔ IsMaximal keys i := by
  have kept_iff : ∀ entry : Placed κ, entry ∈ (longestFirst
      (keys.zipIdx.map fun entry => (entry.2, entry.1))).foldl keepUnlessBeginning [] ↔
      keys[entry.1]? = some entry.2 ∧
        ∀ j ls, keys[j]? = some ls → entry.2 <+: ls → ¬ LooksFirst (j, ls) entry := by
    intro entry
    rw [mem_foldl_keep_iff (pairwise_longestFirst keys) (by simp), List.nil_append]
    simp only [List.not_mem_nil, false_or, mem_longestFirst_iff, Prod.forall]
  rw [isMaximal_iff, keptPlaces, List.mem_map]
  constructor
  · rintro ⟨⟨i, ks⟩, kept, rfl⟩
    obtain ⟨at_i, free⟩ := (kept_iff _).1 kept
    refine ⟨ks, at_i, fun j ls at_j begins => ?_⟩
    have not_first := free j ls at_j begins
    have short := begins.length_le
    simp only [LooksFirst, not_and, Classical.not_imp] at not_first
    obtain ⟨le, later⟩ := not_first short
    exact ⟨(begins.eq_of_length_le le).symm, Nat.le_of_not_lt later⟩
  · rintro ⟨ks, at_i, only⟩
    refine ⟨(i, ks), (kept_iff _).2 ⟨at_i, fun j ls at_j begins => ?_⟩, rfl⟩
    obtain ⟨rfl, later⟩ := only j ls at_j begins
    rintro ⟨-, earlier⟩
    exact Nat.not_le.2 (earlier (Nat.le_refl _)) later

end

/-! ## The plans that are left -/

theorem pathsAt_zipIdx (isKept : Nat → Bool) (place : Nat) (paths : List (Path σ)) :
    ((paths.zipIdx place).filter fun p => isKept p.2).map Prod.fst =
      pathsAt (fun q => isKept (place + q)) paths := by
  rw [pathsAt, List.zipIdx_eq_map_add, List.filter_map, List.map_map]
  rfl

/-- The first plan is left with its own places, the others are places further on. -/
theorem keepAt_cons (isKept : Nat → Bool) (plan : Plan σ) (plans : List (Plan σ)) :
    keepAt isKept (plan :: plans) =
      let paths := pathsAt isKept plan.paths
      let rest := keepAt (fun i => isKept (plan.paths.length + i)) plans
      if paths.isEmpty then rest else { plan with paths } :: rest := by
  have here : ∀ q, placeOf (plan :: plans) 0 q = q := fun q => Nat.zero_add q
  have further : ∀ p q, placeOf (plan :: plans) (p + 1) q = plan.paths.length + placeOf plans p q := by
    intro p q
    rw [placeOf, placeOf, List.take_succ_cons, List.flatMap_cons, List.length_append, Nat.add_assoc]
  simp only [keepAt, List.mapIdx_cons, here, further, List.filter_cons]
  cases (pathsAt isKept plan.paths).isEmpty <;> rfl

theorem select_eq_keepAt (places : List Nat) (place : Nat) (plans : List (Plan σ)) :
    select places place plans = keepAt (fun i => places.contains (place + i)) plans := by
  induction plans generalizing place with
  | nil => rfl
  | cons plan plans ih =>
    rw [select, keepAt_cons, pathsAt_zipIdx places.contains, ih]
    simp only [Nat.add_assoc]

theorem paths_ne_nil_of_mem_keepAt {isKept : Nat → Bool} {plans : List (Plan σ)} {plan : Plan σ}
    (h : plan ∈ keepAt isKept plans) : plan.paths ≠ [] := by
  have some_path := (List.mem_filter.1 h).2
  rintro none
  rw [none] at some_path
  cases some_path

/-- Nothing is left out where every place is kept and no plan is without paths. -/
theorem keepAt_eq_self {isKept : Nat → Bool} {plans : List (Plan σ)}
    (all : ∀ i < (plans.flatMap Plan.paths).length, isKept i = true)
    (some_path : ∀ plan ∈ plans, plan.paths ≠ []) : keepAt isKept plans = plans := by
  induction plans generalizing isKept with
  | nil => rfl
  | cons plan plans ih =>
    rw [List.forall_mem_cons] at some_path
    rw [List.flatMap_cons, List.length_append] at all
    have here : pathsAt isKept plan.paths = plan.paths := by
      rw [pathsAt, List.filter_eq_self.2, List.zipIdx_map_fst]
      intro entry mem
      have at_place := (List.getElem?_eq_some_iff.1 (List.mem_zipIdx_iff_getElem?.1 mem)).1
      exact all entry.2 (Nat.lt_add_right _ at_place)
    have further : keepAt (fun i => isKept (plan.paths.length + i)) plans = plans :=
      ih (fun i hi => all _ (Nat.add_lt_add_left hi _)) some_path.2
    simp only [keepAt_cons, here, further]
    rw [if_neg fun none => some_path.1 (List.isEmpty_iff.1 none)]

variable [KeyType κ]

/-- What is kept is computed from the event keys of all paths. -/
theorem maximalPaths_of_keys {plans : List (Plan σ)} {keys : List (List κ)}
    (computed : (plans.flatMap Plan.paths).mapM (eventKeys eventKey) = .ok keys) :
    maximalPaths plans eventKey = .ok (keepAt (keptPlaces keys).contains plans) := by
  rw [maximalPaths, computed]
  change Except.ok (select (keptPlaces keys) 0 plans) = _
  rw [select_eq_keepAt]
  simp only [Nat.zero_add]

variable [LawfulKeyType κ]

/-- No path at a place that is kept begins a path at another such place. -/
theorem eq_of_begins_at_kept {paths : List (Path σ)} {keys : List (List κ)}
    (computed : paths.mapM (eventKeys eventKey) = .ok keys) {i j : Nat} {p q : Path σ}
    (kept : i ∈ keptPlaces keys) (kept' : j ∈ keptPlaces keys) (at_i : paths[i]? = some p)
    (at_j : paths[j]? = some q) (begins : Begins eventKey p q) : i = j := by
  have aligned := mapM_eq_ok_iff_forall₂.1 computed
  obtain ⟨ks, keys_i, computed_p⟩ := exists_getElem?_of_forall₂ aligned at_i
  obtain ⟨ls, keys_j, computed_q⟩ := exists_getElem?_of_forall₂ aligned at_j
  obtain ⟨_, _, computed_p', computed_q', ks_begins⟩ := begins
  cases computed_p.symm.trans computed_p'
  cases computed_q.symm.trans computed_q'
  obtain ⟨_, keys_i', only⟩ := isMaximal_iff.1 (mem_keptPlaces_iff.1 kept)
  obtain ⟨_, keys_j', only'⟩ := isMaximal_iff.1 (mem_keptPlaces_iff.1 kept')
  cases keys_i.symm.trans keys_i'
  cases keys_j.symm.trans keys_j'
  obtain ⟨rfl, le⟩ := only j ls keys_j ks_begins
  exact Nat.le_antisymm le (only' i ls keys_i List.prefix_rfl).2

/-- Paths that are kept do not begin one another. -/
theorem pairwise_maximalPaths {plans kept : List (Plan σ)} (h : maximalPaths plans eventKey = .ok kept) :
    (kept.flatMap Plan.paths).Pairwise fun p q => ¬ Begins eventKey p q ∧ ¬ Begins eventKey q p := by
  obtain ⟨keys, computed, eq⟩ := bind_eq_ok_iff.1 h
  cases eq
  rw [paths_select, List.pairwise_map]
  refine ((pairwise_zipIdx _).filter _).imp_of_mem fun {e e'} mem mem' earlier => ?_
  obtain ⟨mem, kept⟩ := List.mem_filter.1 mem
  obtain ⟨mem', kept'⟩ := List.mem_filter.1 mem'
  rw [List.contains_iff_mem] at kept kept'
  rw [List.mem_zipIdx_iff_getElem?] at mem mem'
  exact ⟨fun begins => Nat.ne_of_lt earlier (eq_of_begins_at_kept computed kept kept' mem mem' begins),
    fun begins => Nat.ne_of_gt earlier (eq_of_begins_at_kept computed kept' kept mem' mem begins)⟩

/-- Paths that do not begin one another are all maximal. -/
theorem maximalPaths_of_pairwise {plans : List (Plan σ)} {keys : List (List κ)}
    (computed : (plans.flatMap Plan.paths).mapM (eventKeys eventKey) = .ok keys)
    (apart : (plans.flatMap Plan.paths).Pairwise fun p q => ¬ Begins eventKey p q ∧ ¬ Begins eventKey q p)
    (some_path : ∀ plan ∈ plans, plan.paths ≠ []) : maximalPaths plans eventKey = .ok plans := by
  rw [maximalPaths_of_keys computed, keepAt_eq_self ?_ some_path]
  intro i hi
  have aligned := mapM_eq_ok_iff_forall₂.1 computed
  obtain ⟨ks, keys_i, computed_i⟩ := exists_getElem?_of_forall₂ aligned (List.getElem?_eq_getElem hi)
  rw [List.contains_iff_mem, mem_keptPlaces_iff, isMaximal_iff]
  refine ⟨ks, keys_i, fun j ls keys_j begins => ?_⟩
  obtain ⟨q, at_j, computed_j⟩ := exists_getElem?_of_forall₂ aligned.flip keys_j
  obtain ⟨hj, rfl⟩ := List.getElem?_eq_some_iff.1 at_j
  have path_begins := (⟨ks, ls, computed_i, computed_j, begins⟩ : Begins eventKey _ _)
  rw [List.pairwise_iff_getElem] at apart
  rcases Nat.lt_trichotomy i j with lt | rfl | gt
  · exact absurd path_begins (apart i j hi hj lt).1
  · exact ⟨Option.some.inj (keys_j.symm.trans keys_i), Nat.le_refl i⟩
  · exact absurd path_begins (apart j i hj hi gt).2

/-- **The paths that are kept are exactly the maximal ones.** Each plan keeps those of its paths that are
maximal among the paths of all plans, as they are and in their order, and of the plans those without a
maximal path are dropped. So no path that is kept begins another one, every path begins one that is kept,
and doing the same again changes nothing. -/
theorem maximalPaths_keeps_maximal {plans : List (Plan σ)} {keys : List (List κ)}
    (computed : (plans.flatMap Plan.paths).mapM (eventKeys eventKey) = .ok keys) :
    ∃ kept isKept, maximalPaths plans eventKey = .ok kept ∧
      (∀ i, isKept i = true ↔ IsMaximal keys i) ∧ kept = keepAt isKept plans ∧
      (kept.flatMap Plan.paths).Pairwise (fun p q => ¬ Begins eventKey p q ∧ ¬ Begins eventKey q p) ∧
      (∀ p ∈ plans.flatMap Plan.paths, ∃ q ∈ kept.flatMap Plan.paths, Begins eventKey p q) ∧
      maximalPaths kept eventKey = .ok kept := by
  have made := maximalPaths_of_keys computed
  obtain ⟨subset, begun⟩ := maximalPaths_eq_ok made
  have apart := pairwise_maximalPaths made
  refine ⟨_, (keptPlaces keys).contains, made, fun i => ?_, rfl, apart, begun, ?_⟩
  · rw [List.contains_iff_mem, mem_keptPlaces_iff]
  · have answered : ∀ p ∈ plans.flatMap Plan.paths, ∃ ks, eventKeys eventKey p = .ok ks := by
      intro p mem
      obtain ⟨ks, -, computed_p⟩ := exists_right_of_forall₂ (mapM_eq_ok_iff_forall₂.1 computed) mem
      exact ⟨ks, computed_p⟩
    obtain ⟨keys', computed'⟩ := exists_mapM_eq_ok fun p mem => answered p (subset mem)
    exact maximalPaths_of_pairwise computed' apart fun plan => paths_ne_nil_of_mem_keepAt

/-! ## Errands -/

/-- A walk from one place to the next. -/
def walk (places : List String) : Path String where
  state := places.getLastD "home"
  steps := places.map fun place => ⟨"on the way", .ofType place⟩
  weight := places.length
  description := ""

/-- One walk that stays at home, one that goes on from another, and one that is planned a second time. -/
def errands : List (Plan String) :=
  [⟨"home", [walk []], ""⟩, ⟨"bank", [walk ["bank"], walk ["bank", "market"]], ""⟩,
    ⟨"market", [walk ["bank", "market"], walk ["mill"]], ""⟩]

/-- The walk home begins every other one; the walk to the mill is kept besides the longest one. -/
theorem errands_keep_maximal :
    ∃ isKept : Nat → Bool, maximalPaths errands (fun e => .ok e.label) =
        .ok [⟨"bank", [walk ["bank", "market"]], ""⟩, ⟨"market", [walk ["mill"]], ""⟩] ∧
      ∀ i, isKept i = true ↔
        IsMaximal [[], ["bank"], ["bank", "market"], ["bank", "market"], ["mill"]] i := by
  have computed : (errands.flatMap Plan.paths).mapM (eventKeys fun e => .ok e.label) =
      .ok [[], ["bank"], ["bank", "market"], ["bank", "market"], ["mill"]] := rfl
  obtain ⟨_, isKept, _, maximal, _⟩ := maximalPaths_keeps_maximal computed
  exact ⟨isKept, by cbv, maximal⟩

end StateWalk.Plan
