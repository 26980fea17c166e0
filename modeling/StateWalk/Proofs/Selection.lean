import Mathlib.Data.List.Nodup

/-!
# Sorted lists and first items

Two things that are done to a list whose items stand in some order. `pairwise_mergeSort` says that
sorting keeps the order of items that are equal for it, and `FirstsOf` what it means to keep only the
first item of every name.
-/

namespace StateWalk.Selection

variable {α τ : Type}

/-- After sorting, the items that are equal in the order sorted by are in the order of before. -/
theorem pairwise_mergeSort {R : α → α → Prop} (le : α → α → Bool)
    (trans : ∀ a b c, le a b → le b c → le a c) (total : ∀ a b, le a b || le b a) {l : List α}
    (h : l.Pairwise R) : (l.mergeSort le).Pairwise fun a b => le a b ∧ (le b a → R a b) := by
  induction l with
  | nil => simp
  | cons a l ih =>
    rw [List.pairwise_cons] at h
    -- The first item is put before its equals, which all came after it.
    obtain ⟨before, after, eq, eq', less⟩ := List.mergeSort_cons trans total a l
    have sorted := List.pairwise_mergeSort trans total (a :: l)
    have rest := ih h.2
    rw [eq, List.pairwise_append, List.pairwise_cons] at sorted
    rw [eq', List.pairwise_append] at rest
    rw [eq, List.pairwise_append, List.pairwise_cons]
    refine ⟨rest.1, ⟨fun c hc => ⟨sorted.2.1.1 c hc, fun _ => ?_⟩, rest.2.1⟩, fun c hc d hd => ?_⟩
    · have mem : c ∈ l.mergeSort le := eq' ▸ List.mem_append_right before hc
      exact h.1 c (List.mem_mergeSort.1 mem)
    · rcases List.mem_cons.1 hd with rfl | hd
      · refine ⟨sorted.2.2 c hc d List.mem_cons_self, fun le_c => ?_⟩
        have not_le := less c hc
        rw [le_c] at not_le
        cases not_le
      · exact rest.2.2 c hc d hd

/-- Of the items of a list those that come first with their name, apart from names seen before. -/
structure FirstsOf (name : α → τ) (seen : List τ) (items firsts : List α) : Prop where
  sublist : firsts.Sublist items
  distinct : firsts.Pairwise fun a b => name a ≠ name b
  unseen : ∀ a ∈ firsts, name a ∉ seen
  covers : ∀ a ∈ items, name a ∈ seen ∨
    ∃ first ∈ firsts, name first = name a ∧ (first = a ∨ [first, a].Sublist items)

namespace FirstsOf

variable {name : α → τ} {seen : List τ} {items firsts : List α} {a : α}

theorem nil : FirstsOf name seen [] [] := ⟨.slnil, .nil, by simp, by simp⟩

/-- The name of the item is taken. -/
theorem skip (h : FirstsOf name seen items firsts) (taken : name a ∈ seen) :
    FirstsOf name seen (a :: items) firsts := by
  refine ⟨h.sublist.cons a, h.distinct, h.unseen, ?_⟩
  intro c hc
  rcases List.mem_cons.1 hc with rfl | hc
  · exact .inl taken
  · obtain seen | ⟨first, mem, same, before⟩ := h.covers c hc
    · exact .inl seen
    · exact .inr ⟨first, mem, same, before.imp_right (·.cons a)⟩

/-- The name of the item is new. -/
theorem keep (h : FirstsOf name (name a :: seen) items firsts) (new : name a ∉ seen) :
    FirstsOf name seen (a :: items) (a :: firsts) := by
  refine ⟨h.sublist.cons_cons a, ?_, ?_, ?_⟩
  · refine List.pairwise_cons.2 ⟨fun c hc same => ?_, h.distinct⟩
    exact h.unseen c hc (same ▸ List.mem_cons_self)
  · intro c hc
    rcases List.mem_cons.1 hc with rfl | hc
    · exact new
    · exact fun mem => h.unseen c hc (List.mem_cons_of_mem _ mem)
  · intro c hc
    rcases List.mem_cons.1 hc with rfl | hc
    · exact .inr ⟨c, List.mem_cons_self, rfl, .inl rfl⟩
    · obtain mem | ⟨first, mem, same, before⟩ := h.covers c hc
      · rcases List.mem_cons.1 mem with same | mem
        · -- The item that is kept has the name.
          refine .inr ⟨a, List.mem_cons_self, same.symm, .inr ?_⟩
          exact (List.singleton_sublist.2 hc).cons_cons a
        · exact .inl mem
      · exact .inr ⟨first, List.mem_cons_of_mem _ mem, same, before.imp_right (·.cons a)⟩

theorem exists_first (h : FirstsOf name [] items firsts) (ha : a ∈ items) :
    ∃ first ∈ firsts, name first = name a ∧ (first = a ∨ [first, a].Sublist items) := by
  obtain mem | exists_first := h.covers a ha
  · cases mem
  · exact exists_first

/-- The item that is kept of a name comes before all others of that name. -/
theorem eq_or_before {R : α → α → Prop} (h : FirstsOf name [] items firsts) (ordered : items.Pairwise R)
    {first : α} (kept : first ∈ firsts) (ha : a ∈ items) (same : name first = name a) :
    first = a ∨ R first a := by
  obtain ⟨other, mem, same', before⟩ := h.exists_first ha
  have eq : other = first :=
    List.inj_on_of_nodup_map (List.pairwise_map.2 h.distinct) mem kept (same'.trans same.symm)
  rw [eq] at before
  refine before.imp_right fun sub => ?_
  exact List.pairwise_pair.1 (ordered.sublist sub)

end FirstsOf

end StateWalk.Selection
