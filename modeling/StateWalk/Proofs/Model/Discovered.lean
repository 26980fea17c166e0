import Mathlib.Data.List.Nodup
import StateWalk.Model.Basic
import StateWalk.Proofs.Search.Admitted

/-!
# Discoverable states

A model lists the states of its shortest plans, the first one of each key. Things that are filed under
their keys one after the other have different keys, and these are the keys of all of them (`Filed`).
`filed_of_allStates` says so of the discoverable states.
-/

namespace StateWalk.TestModel

open Model Outcome Search

variable {σ κ γ ω : Type}

/-- Each key of these things has one of them filed under it. -/
structure Filed {ι α : Type} (key : α → Except Fault ι) (things : List α) (found : List (ι × α)) :
    Prop where
  distinct : (found.map Prod.fst).Nodup
  sound : ∀ entry ∈ found, entry.2 ∈ things ∧ key entry.2 = .ok entry.1
  complete : ∀ a ∈ things, ∃ k ∈ found.map Prod.fst, key a = .ok k

namespace Filed

variable {ι α : Type} {key : α → Except Fault ι} {things : List α} {found : List (ι × α)}

theorem nil : Filed key [] [] where
  distinct := .nil
  sound := by simp
  complete := by simp

/-- The keys under which something is filed are those of the things. -/
theorem mem_keys_iff (h : Filed key things found) (k : ι) :
    k ∈ found.map Prod.fst ↔ ∃ a ∈ things, key a = .ok k := by
  constructor
  · intro mem
    obtain ⟨entry, filed, rfl⟩ := List.mem_map.1 mem
    exact ⟨entry.2, h.sound entry filed⟩
  · rintro ⟨a, mem, key⟩
    obtain ⟨k', filed, key'⟩ := h.complete a mem
    cases key.symm.trans key'
    exact filed

theorem add_known (h : Filed key things found) {a : α} {k : ι} (keyed : key a = .ok k)
    (known : k ∈ found.map Prod.fst) : Filed key (things ++ [a]) found where
  distinct := h.distinct
  sound entry mem := by
    obtain ⟨filed, key⟩ := h.sound entry mem
    exact ⟨List.mem_append_left _ filed, key⟩
  complete b mem := by
    rcases List.mem_append.1 mem with mem | mem
    · exact h.complete b mem
    · rw [List.mem_singleton] at mem
      exact ⟨k, known, mem ▸ keyed⟩

theorem add_new (h : Filed key things found) {a : α} {k : ι} (keyed : key a = .ok k)
    (new : k ∉ found.map Prod.fst) : Filed key (things ++ [a]) (found ++ [(k, a)]) where
  distinct := by
    rw [List.map_append, List.nodup_append]
    refine ⟨h.distinct, List.nodup_singleton k, ?_⟩
    rintro k' mem _ mem' rfl
    have same : k' = k := List.mem_singleton.1 mem'
    exact new (same ▸ mem)
  sound entry mem := by
    rcases List.mem_append.1 mem with mem | mem
    · obtain ⟨filed, key⟩ := h.sound entry mem
      exact ⟨List.mem_append_left _ filed, key⟩
    · rw [List.mem_singleton] at mem
      subst mem
      exact ⟨List.mem_append_right _ List.mem_cons_self, keyed⟩
  complete b mem := by
    rw [List.map_append]
    rcases List.mem_append.1 mem with mem | mem
    · obtain ⟨k', filed, key⟩ := h.complete b mem
      exact ⟨k', List.mem_append_left _ filed, key⟩
    · rw [List.mem_singleton] at mem
      exact ⟨k, List.mem_append_right _ List.mem_cons_self, mem ▸ keyed⟩

variable [KeyType ι] [LawfulKeyType ι]

theorem fileFirst_cases (found : List (ι × α)) (k : ι) (a : α) :
    k ∈ found.map Prod.fst ∧ fileFirst found k a = .ok found ∨
      k ∉ found.map Prod.fst ∧ fileFirst found k a = .ok (found ++ [(k, a)]) := by
  rw [fileFirst, LawfulKeyType.check_eq_ok]
  by_cases known : k ∈ found.map Prod.fst
  · have among : KeyType.isAmong (found.map Prod.fst) k = true := (KeyType.isAmong_iff _ k).2 known
    rw [among]
    exact .inl ⟨known, rfl⟩
  · have among : KeyType.isAmong (found.map Prod.fst) k = false := by
      rw [← Bool.not_eq_true, KeyType.isAmong_iff]
      exact known
    rw [among]
    exact .inr ⟨known, rfl⟩

/-- One more thing is filed. -/
theorem add (h : Filed key things found) {a : α} {k : ι} (keyed : key a = .ok k) {found' : List (ι × α)}
    (filing : fileFirst found k a = .ok found') : Filed key (things ++ [a]) found' := by
  obtain ⟨known, filed⟩ | ⟨new, filed⟩ := fileFirst_cases found k a
  · cases filed.symm.trans filing
    exact h.add_known keyed known
  · cases filed.symm.trans filing
    exact h.add_new keyed new

theorem addAll (h : Filed key things found) {more : List α} {found' : List (ι × α)}
    (filing : more.foldlM (fun found a => do fileFirst found (← key a) a) found = .ok found') :
    Filed key (things ++ more) found' := by
  induction more generalizing things found with
  | nil =>
    cases filing
    rwa [List.append_nil]
  | cons a more ih =>
    rw [List.foldlM_cons] at filing
    obtain ⟨found₁, first, rest⟩ := bind_eq_ok_iff.1 filing
    obtain ⟨k, keyed, first⟩ := bind_eq_ok_iff.1 first
    have all := ih (h.add keyed first) rest
    rwa [List.append_assoc] at all

/-- Things that have keys can be filed. -/
theorem exists_addAll {more : List α} (keyed : ∀ a ∈ more, ∃ k, key a = .ok k) (found : List (ι × α)) :
    ∃ found', more.foldlM (fun found a => do fileFirst found (← key a) a) found = .ok found' := by
  induction more generalizing found with
  | nil => exact ⟨found, rfl⟩
  | cons a more ih =>
    rw [List.forall_mem_cons] at keyed
    obtain ⟨k, key_a⟩ := keyed.1
    obtain ⟨found₁, filed⟩ : ∃ found₁, fileFirst found k a = .ok found₁ :=
      (fileFirst_cases found k a).elim (fun h => ⟨_, h.2⟩) fun h => ⟨_, h.2⟩
    obtain ⟨found₂, rest⟩ := ih keyed.2 found₁
    refine ⟨found₂, ?_⟩
    rw [List.foldlM_cons, bind_eq_ok_iff]
    exact ⟨found₁, bind_eq_ok_iff.2 ⟨k, key_a, filed⟩, rest⟩

end Filed

variable {m : TestModel σ κ γ ω} {o : Options σ κ γ ω} {settings : List (Setting σ κ γ ω)}

theorem resolve_append_generator (resolved : m.resolve settings = .ok o) (g : Generator σ κ) :
    m.resolve (settings ++ [.generator g]) = .ok { o with generator := g } := by
  have known : [Setting.generator g].filterMap (Setting.unknownName? (γ := γ) (ω := ω)) = [] := rfl
  have names : Setting.checkNames (settings ++ [.generator g]) = Setting.checkNames settings := by
    rw [Setting.checkNames, List.filterMap_append, known, List.append_nil]
    rfl
  simp only [resolve, Options.resolve, bind_eq_ok_iff, names] at resolved ⊢
  obtain ⟨_, known, base, given, _, known', eq⟩ := resolved
  cases eq
  exact ⟨_, known, base, given, _, known', by rw [List.foldl_append]; rfl⟩

variable [KeyType κ]

/-- Whatever generator a model has, the plans that it lists states by come from the breadth-first search. -/
theorem shortestPlans_eq (resolved : m.resolve settings = .ok o) :
    m.shortestPlans settings = Search.shortestPlans m.behavior (o.forSearch m.behavior) := by
  rw [shortestPlans, plans, resolve_append_generator resolved]
  change plansWith m.behavior { o with generator := Search.shortestPlans } false = _
  rw [plansWith]
  change (Search.shortestPlans m.behavior (o.forSearch m.behavior) >>= fun plans => .ok plans) = _
  cases Search.shortestPlans m.behavior (o.forSearch m.behavior) <;> rfl

variable [LawfulKeyType κ]

/-- The discoverable states are those of the shortest plans, one for each key. -/
theorem filed_of_allStates {states : List σ} (h : m.allStates settings = .ok states) :
    ∃ o plans, m.resolve settings = .ok o ∧ m.shortestPlans settings = .ok plans ∧
      ∃ found : List (κ × σ), states = found.map Prod.snd ∧
        Filed (fun s => o.stateKey s none) (plans.map Plan.state) found := by
  simp only [allStates, bind_eq_ok_iff] at h
  obtain ⟨o, resolved, plans, made, found, filing, eq⟩ := h
  cases eq
  have filing : (plans.map Plan.state).foldlM
      (fun found s => do fileFirst found (← o.stateKey s none) s) [] = .ok found := by
    rwa [List.foldlM_map]
  exact ⟨o, plans, resolved, made, found, rfl, Filed.nil.addAll filing⟩

/-- They can be listed if the states of the plans have keys. -/
theorem exists_allStates (resolved : m.resolve settings = .ok o) {plans : List (Plan σ)}
    (made : m.shortestPlans settings = .ok plans)
    (keyed : ∀ plan ∈ plans, ∃ k, o.stateKey plan.state none = .ok k) :
    ∃ states, m.allStates settings = .ok states := by
  obtain ⟨found, filing⟩ : ∃ found, (plans.map Plan.state).foldlM
      (fun found s => do fileFirst found (← o.stateKey s none) s) [] = .ok found :=
    Filed.exists_addAll (List.forall_mem_map.2 keyed) []
  rw [List.foldlM_map] at filing
  refine ⟨found.map Prod.snd, ?_⟩
  simp only [allStates, bind_eq_ok_iff]
  exact ⟨o, resolved, plans, made, found, filing, rfl⟩

end StateWalk.TestModel
