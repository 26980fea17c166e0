/-!
# Lists of distinct names

`addNew` adds a name unless it is listed, so names stand in the order in which they first came up
(`idxOf_foldl_addNew_lt_iff`).
-/

namespace StateWalk.Text

def addNew (found : List String) (name : String) : List String :=
  if found.contains name then found else found ++ [name]

theorem addNew_of_mem {found : List String} {name : String} (listed : name ∈ found) : addNew found name = found := by
  simp [addNew, listed]

theorem addNew_of_not_mem {found : List String} {name : String} (unlisted : name ∉ found) :
    addNew found name = found ++ [name] := by
  simp [addNew, unlisted]

theorem mem_addNew (found : List String) (name other : String) :
    other ∈ addNew found name ↔ other ∈ found ∨ other = name := by
  by_cases h : name ∈ found
  · rw [addNew_of_mem h]
    exact ⟨Or.inl, fun either => either.elim id fun eq => eq ▸ h⟩
  · rw [addNew_of_not_mem h, List.mem_append, List.mem_singleton]

theorem nodup_addNew {found : List String} (h : found.Nodup) (name : String) :
    (addNew found name).Nodup := by
  by_cases listed : name ∈ found
  · rwa [addNew_of_mem listed]
  · rw [addNew_of_not_mem listed]
    exact List.nodup_append.mpr ⟨h, by simp, by rintro a ha b hb rfl; simp_all⟩

theorem mem_foldl_addNew (names found : List String) (name : String) :
    name ∈ names.foldl addNew found ↔ name ∈ found ∨ name ∈ names := by
  induction names generalizing found with
  | nil => simp
  | cons first names ih => rw [List.foldl_cons, ih, mem_addNew, or_assoc, List.mem_cons]

theorem nodup_foldl_addNew (names : List String) {found : List String} (h : found.Nodup) :
    (names.foldl addNew found).Nodup := by
  induction names generalizing found with
  | nil => exact h
  | cons first names ih => exact ih (nodup_addNew h first)

/-- Different names are added one after the other. -/
theorem foldl_addNew_of_nodup {names found : List String} (h : (found ++ names).Nodup) :
    names.foldl addNew found = found ++ names := by
  induction names generalizing found with
  | nil => exact (List.append_nil found).symm
  | cons first names ih =>
    have unlisted : first ∉ found := fun mem => (List.nodup_append.1 h).2.2 _ mem _ List.mem_cons_self rfl
    rw [List.append_cons] at h
    rw [List.foldl_cons, addNew_of_not_mem unlisted, ih h, ← List.append_cons]

/-- Adding names to names that were added before is adding them all, one after the other. -/
theorem foldl_foldl_addNew (names start found : List String) :
    (names.foldl addNew start).foldl addNew found = names.foldl addNew (start.foldl addNew found) := by
  induction names generalizing start with
  | nil => rfl
  | cons name names ih =>
    have added : (addNew start name).foldl addNew found = addNew (start.foldl addNew found) name := by
      by_cases known : name ∈ start
      · have listed : name ∈ start.foldl addNew found := (mem_foldl_addNew ..).2 (.inr known)
        rw [addNew_of_mem known, addNew_of_mem listed]
      · rw [addNew_of_not_mem known, List.foldl_append, List.foldl_cons, List.foldl_nil]
    rw [List.foldl_cons, ih, added, List.foldl_cons]

/-- A name that is known does not change the order in which others first come up. -/
theorem idxOf_append_cons_lt_iff {found : List String} {name : String} (known : name ∈ found)
    (names : List String) (first second : String) :
    (found ++ name :: names).idxOf first < (found ++ name :: names).idxOf second ↔
      (found ++ names).idxOf first < (found ++ names).idxOf second := by
  have before {other : String} (mem : other ∈ found) : found.idxOf other < found.length :=
    List.idxOf_lt_length_iff.2 mem
  have beyond {other : String} (new : other ∉ found) :
      (name :: names).idxOf other = names.idxOf other + 1 := by
    have ne : (name == other) = false := beq_false_of_ne fun same => new (same ▸ known)
    rw [List.idxOf_cons, ne, cond_false]
  rw [List.idxOf_append, List.idxOf_append, List.idxOf_append, List.idxOf_append]
  by_cases h : first ∈ found <;> by_cases h' : second ∈ found
  · simp only [h, h', if_true]
  · have := before h
    simp only [h, h', if_true, if_false]
    omega
  · have := before h'
    simp only [h, h', if_true, if_false]
    omega
  · simp only [h, h', if_false, beyond h, beyond h']
    omega

/-- Names are listed in the order in which they first come up. -/
theorem idxOf_foldl_addNew_lt_iff (names found : List String) (first second : String) :
    (names.foldl addNew found).idxOf first < (names.foldl addNew found).idxOf second ↔
      (found ++ names).idxOf first < (found ++ names).idxOf second := by
  induction names generalizing found with
  | nil => rw [List.foldl_nil, List.append_nil]
  | cons name names ih =>
    rw [List.foldl_cons, ih]
    by_cases known : name ∈ found
    · rw [addNew_of_mem known, idxOf_append_cons_lt_iff known]
    · rw [addNew_of_not_mem known, List.append_assoc, List.singleton_append]

end StateWalk.Text
