import Mathlib.Data.List.Infix
import Mathlib.Data.List.Induction
import StateWalk.Machine.Basic

/-!
# Active paths

The active nodes of a leaf are the leaf and its ancestors, which stand at the beginnings of its path
(`mem_ancestors`). A state value that is made from a path names all of them but the root
(`activePaths_valueAt`), the leaf first. No two of their dotted names are alike, whatever the keys are: every
name is longer than those of the ancestors.
-/

namespace StateWalk

namespace Text

theorem dottedBeginnings_concat (path : List String) (key : String) :
    dottedBeginnings (path ++ [key]) = dotted (path ++ [key]) :: dottedBeginnings path := by
  have whole : (path ++ [key]).take (path.length + 1) = path ++ [key] := List.take_of_length_le (by simp)
  rw [dottedBeginnings, List.length_append, List.length_singleton, List.range_succ, List.reverse_append,
    List.reverse_singleton, List.singleton_append, List.map_cons, whole, dottedBeginnings]
  congr 1
  refine List.map_congr_left fun n mem => ?_
  have inside : n < path.length := List.mem_range.1 (List.mem_reverse.1 mem)
  rw [List.take_append_of_le_length inside]

/-- The dotted beginnings of a path, the longest first, without the empty one. -/
theorem dottedBeginnings_eq (path : List String) :
    dottedBeginnings path = path.inits.tail.reverse.map dotted := by
  induction path using List.reverseRecOn with
  | nil => rfl
  | append_singleton path key ih =>
    have some_init : path.inits ≠ [] := List.ne_nil_of_mem ((List.mem_inits [] path).2 List.nil_prefix)
    have longest : (path ++ [key]).inits.tail = path.inits.tail ++ [path ++ [key]] := by
      simp [List.inits_append, List.tail_append_of_ne_nil some_init]
    rw [dottedBeginnings_concat, ih, longest, List.reverse_append, List.reverse_singleton,
      List.singleton_append, List.map_cons]

theorem mem_dottedBeginnings {path : List String} {name : String} :
    name ∈ dottedBeginnings path ↔ ∃ beginning, beginning <+: path ∧ beginning ≠ [] ∧ name = dotted beginning := by
  induction path using List.reverseRecOn with
  | nil => simp [dottedBeginnings]
  | append_singleton path key ih =>
    rw [dottedBeginnings_concat, List.mem_cons, ih]
    simp only [List.prefix_concat_iff, or_and_right, exists_or, exists_eq_left]
    simp

/-- A path that goes on has a longer name. -/
theorem length_dotted_lt {path longer : List String} (begins : path <+: longer) (some_key : path ≠ [])
    (ne : path ≠ longer) : (dotted path).length < (dotted longer).length := by
  obtain ⟨rest, rfl⟩ := begins
  have goes_on : rest ≠ [] := by
    rintro rfl
    exact ne (List.append_nil path).symm
  rw [dotted, dotted, String.intercalate_append_of_ne_nil some_key goes_on, String.length_append,
    String.length_append]
  have point : ".".length = 1 := rfl
  omega

/-- Longer names stand first. -/
theorem pairwise_dottedBeginnings (path : List String) :
    (dottedBeginnings path).Pairwise fun longer name => name.length < longer.length := by
  induction path using List.reverseRecOn with
  | nil => exact .nil
  | append_singleton path key ih =>
    rw [dottedBeginnings_concat, List.pairwise_cons]
    refine ⟨fun name mem => ?_, ih⟩
    obtain ⟨beginning, begins, some_key, rfl⟩ := mem_dottedBeginnings.1 mem
    refine length_dotted_lt (begins.trans (List.prefix_append ..)) some_key ?_
    rintro rfl
    have shorter := begins.length_le
    rw [List.length_append, List.length_singleton] at shorter
    omega

theorem nodup_dottedBeginnings (path : List String) : (dottedBeginnings path).Nodup :=
  (pairwise_dottedBeginnings path).imp fun shorter same => by simp [same] at shorter

/-- In the beginnings of a path, the longer one comes first. -/
theorem idxOf_dottedBeginnings_lt {path : List String} {longer name : String} (mem : longer ∈ dottedBeginnings path)
    (mem' : name ∈ dottedBeginnings path) (shorter : name.length < longer.length) :
    (dottedBeginnings path).idxOf longer < (dottedBeginnings path).idxOf name := by
  by_contra later
  obtain earlier | same := Nat.lt_or_eq_of_le (Nat.not_lt.1 later)
  · have reverse := List.pairwise_iff_getElem.1 (pairwise_dottedBeginnings path) _ _
      (List.idxOf_lt_length_iff.2 mem') (List.idxOf_lt_length_iff.2 mem) earlier
    rw [List.getElem_idxOf, List.getElem_idxOf] at reverse
    omega
  · rw [(List.idxOf_inj mem').1 same] at shorter
    exact Nat.lt_irrefl _ shorter

end Text

namespace Machine

/-! ## Ancestors -/

theorem mem_ancestors {path source : List String} : source ∈ ancestors path ↔ source <+: path := by
  induction path generalizing source with
  | nil => rw [ancestors, List.mem_singleton, List.prefix_nil]
  | cons key path ih =>
    rw [ancestors, List.mem_append, List.mem_map, List.mem_singleton, List.prefix_cons_iff, or_comm]
    simp only [ih, eq_comm, and_comm]

/-- Every node stands before its ancestors. -/
theorem pairwise_ancestors (path : List String) :
    (ancestors path).Pairwise fun deeper outer => outer.length < deeper.length := by
  induction path with
  | nil => exact List.pairwise_singleton _ _
  | cons key path ih =>
    rw [ancestors, List.pairwise_append]
    refine ⟨List.pairwise_map.2 (ih.imp Nat.succ_lt_succ), List.pairwise_singleton _ _, ?_⟩
    intro deeper mem outer root
    obtain ⟨below, -, rfl⟩ := List.mem_map.1 mem
    obtain rfl := List.mem_singleton.1 root
    exact Nat.succ_pos _

/-- What comes before a node are the active nodes below it. -/
theorem ancestors_split_iff {path source : List String} {p : List String → Prop} :
    (∃ before after, ancestors path = before ++ source :: after ∧ ∀ deeper ∈ before, p deeper) ↔
      source <+: path ∧ ∀ deeper, deeper <+: path → source.length < deeper.length → p deeper := by
  simp only [← mem_ancestors]
  have ordered := pairwise_ancestors path
  constructor
  · rintro ⟨before, after, split, holds⟩
    rw [split, List.pairwise_append, List.pairwise_cons] at ordered
    rw [split]
    refine ⟨List.mem_append_right _ List.mem_cons_self, fun deeper mem longer => ?_⟩
    obtain mem | mem := List.mem_append.1 mem
    · exact holds deeper mem
    · obtain rfl | mem := List.mem_cons.1 mem
      · exact absurd longer (Nat.lt_irrefl _)
      · exact absurd longer (Nat.lt_asymm (ordered.2.1.1 deeper mem))
  · rintro ⟨mem, holds⟩
    obtain ⟨before, after, split⟩ := List.append_of_mem mem
    rw [split, List.pairwise_append] at ordered
    refine ⟨before, after, split, fun deeper earlier => holds deeper ?_ ?_⟩
    · rw [split]
      exact List.mem_append_left _ earlier
    · exact ordered.2.2 deeper earlier source List.mem_cons_self

/-! ## Paths of state values -/

/-- The active paths of the value of a node below the root. -/
theorem activePaths_valueAt {path : List String} (h : path ≠ []) (above : List String) :
    (valueAt path).activePaths above = Text.dottedBeginnings (above ++ path) := by
  induction path generalizing above with
  | nil => exact absurd rfl h
  | cons key path ih =>
    cases path with
    | nil => rw [valueAt, Value.activePaths, Text.dottedBeginnings_concat]
    | cons next path =>
      have below := ih (List.cons_ne_nil next path) (above ++ [key])
      have distinct := Text.nodup_dottedBeginnings (above ++ [key] ++ next :: path)
      rw [valueAt_cons_cons, Value.activePaths, Value.activePathsAmong, Value.activePathsAmong]
      change ((valueAt (next :: path)).activePaths (above ++ [key])).foldl Text.addNew [] = _
      rw [below, Text.foldl_addNew_of_nodup distinct, List.nil_append, List.append_assoc, List.singleton_append]

/-- What is active in a leaf are the nodes at the beginnings of its path, the root left out. -/
theorem paths_eq {s : Snapshot} {path : List String} (h : s.value = valueAt path) :
    s.paths = Text.dottedBeginnings path := by
  rw [Snapshot.paths, h]
  by_cases root : path = []
  · subst root
    rfl
  · exact activePaths_valueAt root []

end Machine

end StateWalk
