import StateWalk.Proofs.Machine.Active
import StateWalk.Proofs.Machine.Validity

/-!
# Targets

What a target means, and where entering it ends. A target is written in one of three ways (`Means`): with the id
of a node, with the keys from the source down, or with the keys from the parent of the source down. In a checked
tree a target is looked up for what it means and nothing else (`Sound.resolve_eq_some_iff`). A node is entered
by its initial children, down to one without children (`Node.Enters`).
-/

namespace StateWalk

namespace Text

/-- The name is made of these keys, which have no points themselves. -/
structure Spells (name : String) (keys : List String) : Prop where
  some_key : keys ≠ []
  pointless : ∀ key ∈ keys, '.' ∉ key.toList
  eq : name = dotted keys

theorem pointless_splitAtDots {cs part : List Char} (mem : part ∈ splitAtDots cs) : '.' ∉ part := by
  induction cs generalizing part with
  | nil =>
    obtain rfl := List.mem_singleton.1 mem
    exact List.not_mem_nil
  | cons c cs ih =>
    rw [splitAtDots] at mem
    by_cases point : c = '.'
    · rw [if_pos point] at mem
      obtain rfl | mem := List.mem_cons.1 mem
      · exact List.not_mem_nil
      · exact ih mem
    · rw [if_neg point] at mem
      cases parts : splitAtDots cs with
      | nil => exact absurd parts (splitAtDots_ne_nil cs)
      | cons first rest =>
        rw [parts] at ih mem
        obtain rfl | mem := List.mem_cons.1 mem
        · rw [List.mem_cons, not_or]
          exact ⟨Ne.symm point, ih List.mem_cons_self⟩
        · exact ih (List.mem_cons_of_mem _ mem)

theorem splitAtDots_eq (cs : List Char) : splitAtDots cs = cs.splitOn '.' := by
  induction cs with
  | nil => rfl
  | cons c cs ih =>
    have some_part := splitAtDots_ne_nil cs
    rw [List.splitOn_cons_eq_if_modifyHead, splitAtDots, ← ih]
    simp only [beq_iff_eq]
    cases parts : splitAtDots cs with
    | nil => exact absurd parts some_part
    | cons part parts => rfl

/-- Every name is made of keys in one way. -/
theorem spells_iff {name : String} {keys : List String} :
    Spells name keys ↔ keys = (splitAtDots name.toList).map String.ofList := by
  constructor
  · rintro ⟨some_key, pointless, rfl⟩
    have parts : splitAtDots (dotted keys).toList = keys.map String.toList := by
      have chars : (dotted keys).toList = ['.'].intercalate (keys.map String.toList) :=
        String.toList_intercalate
      rw [chars, splitAtDots_eq, List.splitOn_intercalate]
      · exact List.forall_mem_map.2 pointless
      · exact fun none => some_key (List.map_eq_nil_iff.1 none)
    rw [parts, List.map_map]
    simp
  · rintro rfl
    refine ⟨fun none => splitAtDots_ne_nil _ (List.map_eq_nil_iff.1 none), ?_, ?_⟩
    · refine List.forall_mem_map.2 fun part mem => ?_
      rw [String.toList_ofList]
      exact pointless_splitAtDots mem
    · rw [← String.toList_inj, dotted, String.toList_intercalate, List.map_map]
      have chars := joined_splitAtDots name.toList
      simpa [joined, Function.comp_def] using chars.symm

end Text

namespace Machine

/-- What a target means in the node at `source`, by the path of a node: `#id` the node with the id, `.a.b` the
one below the source, and `a.b` the one below the parent of the source, where the root counts as its own
parent. -/
inductive Means (root : Node) (source : List String) : String → List String → Prop where
  | ofId {path : List String} {n : Node} : root.at? path = some n → Means root source ("#" ++ n.id) path
  | below {name : String} {keys : List String} {n : Node} : Text.Spells name keys →
    root.at? (source ++ keys) = some n → Means root source ("." ++ name) (source ++ keys)
  | beside {name : String} {keys : List String} {n : Node} : Text.Spells name keys →
    name.toList.head? ≠ some '#' → name.toList.head? ≠ some '.' →
    root.at? (source.dropLast ++ keys) = some n → Means root source name (source.dropLast ++ keys)

/-- Following initial children leads down this path from a node to one without children. -/
inductive Node.Enters : Node → List String → Prop where
  | here {n : Node} : n.children = [] → Enters n []
  | child {n c : Node} {key : String} {path : List String} : n.initial = some key →
    Keyed.find? n.children key = some c → Enters c path → Enters n (key :: path)

/-- The way in from a node, if every node on it has an initial child. -/
theorem Node.enters_entry {n : Node} (sound : ∀ {path c}, n.at? path = some c → initialProblems c = []) :
    n.Enters n.entry := by
  induction n using induction with
  | step n ih =>
    have here : n.at? [] = some n := rfl
    obtain empty | ⟨key, c, named, child⟩ := initialProblems_eq_nil_iff.1 (sound here)
    · rw [entry_of_children_nil empty]
      exact .here empty
    · have below : ∀ {path c'}, c.at? path = some c' → initialProblems c' = [] := by
        intro path c' h
        have address : n.at? (key :: path) = some c' := by
          rw [at?_cons, child]
          exact h
        exact sound address
      rw [entry_eq named child]
      exact .child named child (ih (key, c) (Keyed.mem_of_find? child) below)

/-! ## Looking targets up -/

section

variable {root : Node} {source found : List String}

theorem descend_eq_some_iff {path : List String} {name : String} :
    descend root path (Text.splitAtDots name.toList) = some found ↔
      ∃ keys n, Text.Spells name keys ∧ root.at? (path ++ keys) = some n ∧ found = path ++ keys := by
  simp only [Text.spells_iff, descend]
  constructor
  · intro h
    split at h
    · obtain ⟨n, here⟩ := Option.isSome_iff_exists.1 ‹_›
      exact ⟨_, n, rfl, here, (Option.some.inj h).symm⟩
    · cases h
  · rintro ⟨keys, n, rfl, here, rfl⟩
    rw [if_pos (Option.isSome_iff_exists.2 ⟨n, here⟩)]

theorem resolve_id (id : String) : resolve root source ("#" ++ id) = pathOfId root id := by
  rw [resolve, String.toList_append]
  exact congrArg (pathOfId root) String.ofList_toList

theorem resolve_below (name : String) :
    resolve root source ("." ++ name) = descend root source (Text.splitAtDots name.toList) := by
  rw [resolve, String.toList_append]
  rfl

theorem resolve_beside {name : String} (id : name.toList.head? ≠ some '#')
    (below : name.toList.head? ≠ some '.') :
    resolve root source name = descend root source.dropLast (Text.splitAtDots name.toList) := by
  rw [resolve]
  split
  next named => exact absurd (by rw [named]; rfl) id
  next within => exact absurd (by rw [within]; rfl) below
  next => rfl

/-- A target is written in one of three ways. -/
theorem target_cases (target : String) :
    (∃ id, target = "#" ++ id) ∨ (∃ name, target = "." ++ name) ∨
      target.toList.head? ≠ some '#' ∧ target.toList.head? ≠ some '.' := by
  have begins : ∀ {c : Char}, target.toList.head? = some c → ∃ rest, target = String.ofList [c] ++ rest := by
    intro c h
    obtain ⟨cs, chars⟩ := List.head?_eq_some_iff.1 h
    refine ⟨String.ofList cs, ?_⟩
    rw [← String.toList_inj, chars]
    simp
  by_cases named : target.toList.head? = some '#'
  · exact .inl (begins named)
  by_cases within : target.toList.head? = some '.'
  · exact .inr (.inl (begins within))
  · exact .inr (.inr ⟨named, within⟩)

end

section

variable {d : MachineDefinition} {m : Machine}

theorem Sound.nodup_ids (sound : Sound d m) : ((m.root.registrations []).map Prod.fst).Nodup := by
  have unrepeated := (List.append_eq_nil_iff.1 sound.checked).1
  rw [List.map_eq_nil_iff, Definition.repeated_eq_repeats] at unrepeated
  exact (Definition.repeats_eq_nil_iff _).1 unrepeated

/-- An id is that of one node. -/
theorem Sound.pathOfId_eq_some_iff (sound : Sound d m) (distinct : m.root.DistinctKeys) {id : String}
    {path : List String} : pathOfId m.root id = some path ↔ ∃ n, m.root.at? path = some n ∧ n.id = id := by
  rw [← Node.mem_registrations_iff distinct]
  exact ⟨Keyed.mem_of_find?, fun mem => Keyed.find?_of_mem sound.nodup_ids mem⟩

/-- A target is looked up for what it means. -/
theorem Sound.resolve_eq_some_iff (sound : Sound d m) (distinct : m.root.DistinctKeys) {source : List String}
    {target : String} {path : List String} :
    resolve m.root source target = some path ↔ Means m.root source target path := by
  constructor
  · intro h
    obtain ⟨id, rfl⟩ | ⟨name, rfl⟩ | ⟨named, within⟩ := target_cases target
    · rw [resolve_id, sound.pathOfId_eq_some_iff distinct] at h
      obtain ⟨n, here, rfl⟩ := h
      exact .ofId here
    · rw [resolve_below, descend_eq_some_iff] at h
      obtain ⟨keys, n, spells, here, rfl⟩ := h
      exact .below spells here
    · rw [resolve_beside named within, descend_eq_some_iff] at h
      obtain ⟨keys, n, spells, here, rfl⟩ := h
      exact .beside spells named within here
  · intro h
    cases h with
    | ofId here =>
      rw [resolve_id, sound.pathOfId_eq_some_iff distinct]
      exact ⟨_, here, rfl⟩
    | below spells here =>
      rw [resolve_below, descend_eq_some_iff]
      exact ⟨_, _, spells, here, rfl⟩
    | beside spells named within here =>
      rw [resolve_beside named within, descend_eq_some_iff]
      exact ⟨_, _, spells, here, rfl⟩

end

end Machine

end StateWalk
