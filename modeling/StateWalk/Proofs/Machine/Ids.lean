import StateWalk.Proofs.Machine.Targets

/-!
# Looking up ids

A checked tree registers every node once, under an id of its own. A target that is written as a mark and an id
means the node with this id (`Sound.resolve_eq_some_iff`). A node that is asked for by its id is looked up after
all leading marks are left out, so ids that begin with a mark themselves are not found
(`Sound.nodePath?_id_iff`): there, and nowhere else, the two ways to look up an id part (`id_lookups_agree`).
-/

namespace StateWalk

namespace Text

/-- The name begins with the mark of an id. -/
def Marked (name : String) : Prop := name.toList.head? = some '#'

/-- The name without the marks that it begins with. -/
def unmarked (name : String) : String := String.ofList (name.toList.dropWhile (· == '#'))

theorem unmarked_mark (name : String) : unmarked ("#" ++ name) = unmarked name := by
  rw [unmarked, String.toList_append]
  rfl

theorem unmarked_eq_iff {name : String} : unmarked name = name ↔ ¬ Marked name := by
  rw [unmarked, Marked, ← String.toList_inj, String.toList_ofList]
  cases chars : name.toList with
  | nil => simp
  | cons c cs =>
    by_cases mark : c = '#'
    · -- at least one mark is left out
      have shorter := (List.dropWhile_suffix (l := cs) (· == '#')).length_le
      refine iff_of_false (fun same => ?_) (by simp [mark])
      rw [List.dropWhile_cons_of_pos (by simp [mark])] at same
      rw [same, List.length_cons] at shorter
      omega
    · simp [mark]

end Text

namespace Machine

variable {d : MachineDefinition} {m : Machine} {path : List String} {n : Node}

theorem nodePath?_eq (id : String) : m.nodePath? id = pathOfId m.root (Text.unmarked id) := rfl

theorem nodePath?_mark (id : String) : m.nodePath? ("#" ++ id) = m.nodePath? id := by
  rw [nodePath?_eq, Text.unmarked_mark, nodePath?_eq]

/-- Every node is registered once. -/
theorem Sound.nodup_paths (sound : Sound d m) (distinct : m.root.DistinctKeys) :
    ((m.root.registrations []).map Prod.snd).Nodup := by
  refine sound.nodup_ids.of_map.map_on ?_
  rintro ⟨id, path⟩ mem ⟨id', _⟩ mem' rfl
  obtain ⟨n, here, rfl⟩ := (Node.mem_registrations_iff distinct).1 mem
  obtain ⟨n', here', rfl⟩ := (Node.mem_registrations_iff distinct).1 mem'
  cases here.symm.trans here'
  rfl

/-- A node is found by its id unless that begins with a mark. -/
theorem Sound.nodePath?_id_iff (sound : Sound d m) (distinct : m.root.DistinctKeys)
    (here : m.root.at? path = some n) : m.nodePath? n.id = some path ↔ ¬ Text.Marked n.id := by
  rw [nodePath?_eq, sound.pathOfId_eq_some_iff distinct, ← Text.unmarked_eq_iff]
  constructor
  · rintro ⟨n', here', same⟩
    cases here.symm.trans here'
    exact same.symm
  · intro same
    exact ⟨n, here, same.symm⟩

/-- A node asked for and a target that is looked up by one id are the same, or the id begins with a mark and
neither is there. -/
theorem Sound.nodePath?_eq_resolve_iff (sound : Sound d m) (distinct : m.root.DistinctKeys) (id : String)
    (source : List String) :
    m.nodePath? ("#" ++ id) = resolve m.root source ("#" ++ id) ↔
      ¬ Text.Marked id ∨ m.nodePath? ("#" ++ id) = none ∧ resolve m.root source ("#" ++ id) = none := by
  rw [nodePath?_mark, resolve_id]
  constructor
  · intro same
    rw [same, and_self]
    by_contra neither
    rw [not_or, not_not] at neither
    obtain ⟨marked, found⟩ := neither
    obtain ⟨path, found⟩ := Option.ne_none_iff_exists'.1 found
    obtain ⟨n, here, rfl⟩ := (sound.pathOfId_eq_some_iff distinct).1 found
    exact (sound.nodePath?_id_iff distinct here).1 (same.trans found) marked
  · rintro (unmarked | ⟨unasked, unresolved⟩)
    · rw [nodePath?_eq, Text.unmarked_eq_iff.2 unmarked]
    · rw [unasked, unresolved]

/-- **Ids are looked up alike, unless they begin with a mark.** A machine that was made registers each node once,
and no two under one id. A mark with the id of a node is a target that means this node in every other one. The
node is found when it is asked for by its id, with or without a mark before it, exactly if the id does not begin
with a mark itself. And whatever the id, asking for it with a mark gives what the target means, except for ids
that begin with a mark where one of the two finds a node. -/
theorem id_lookups_agree (made : ofDefinition d = .ok m) (distinct : d.root.DistinctKeys) :
    (((m.root.registrations []).map Prod.fst).Nodup ∧ ((m.root.registrations []).map Prod.snd).Nodup ∧
      ∀ id path, (id, path) ∈ m.root.registrations [] ↔ ∃ n, m.root.at? path = some n ∧ n.id = id) ∧
    (∀ {path n}, m.root.at? path = some n →
      (∀ source, resolve m.root source ("#" ++ n.id) = some path) ∧
      (m.nodePath? n.id = some path ↔ ¬ Text.Marked n.id) ∧
      (m.nodePath? ("#" ++ n.id) = some path ↔ ¬ Text.Marked n.id)) ∧
    ∀ id source, m.nodePath? ("#" ++ id) = resolve m.root source ("#" ++ id) ↔
      ¬ Text.Marked id ∨ m.nodePath? ("#" ++ id) = none ∧ resolve m.root source ("#" ++ id) = none := by
  have sound := sound_of_ofDefinition made
  have keys : m.root.DistinctKeys := Node.distinctKeys_of_build distinct sound.built
  refine ⟨⟨sound.nodup_ids, sound.nodup_paths keys, fun id path => Node.mem_registrations_iff keys⟩, ?_,
    sound.nodePath?_eq_resolve_iff keys⟩
  intro path n here
  refine ⟨fun source => (sound.resolve_eq_some_iff keys).2 (.ofId here), sound.nodePath?_id_iff keys here, ?_⟩
  rw [nodePath?_mark]
  exact sound.nodePath?_id_iff keys here

/-! ## A labelled hatch -/

/-- A hatch with an id that begins with a mark. -/
def labelledHatch : MachineDefinition where
  id := some (some "hatch")
  root := { initial := some "shut", children := [("shut", {}), ("open", { id := some "#open" })] }

def labelledHatchMachine : Machine where
  id := "hatch"
  root := ⟨"hatch", "compound", some "shut", none, [], [
    ("shut", ⟨"hatch.shut", "atomic", none, none, [], []⟩), ("open", ⟨"#open", "atomic", none, none, [], []⟩)]⟩

theorem labelledHatch_made : ofDefinition labelledHatch = .ok labelledHatchMachine := by
  rfl

theorem labelledHatch_distinctKeys : labelledHatch.root.DistinctKeys := by
  refine .intro (by decide) ?_
  simp only [labelledHatch, List.forall_mem_cons]
  exact ⟨.of_childless rfl, .of_childless rfl, nofun⟩

/-- The shut hatch is found in every way. -/
theorem shutHatch_found : labelledHatchMachine.nodePath? "hatch.shut" = some ["shut"] ∧
    labelledHatchMachine.nodePath? "#hatch.shut" = some ["shut"] ∧
    resolve labelledHatchMachine.root ["open"] "#hatch.shut" = some ["shut"] := by
  obtain ⟨-, nodes, -⟩ := id_lookups_agree labelledHatch_made labelledHatch_distinctKeys
  have here : labelledHatchMachine.root.at? ["shut"] =
      some ⟨"hatch.shut", "atomic", none, none, [], []⟩ := by
    rfl
  have unmarked : ¬ Text.Marked "hatch.shut" := by
    unfold Text.Marked
    decide
  obtain ⟨means, asked, askedWithMark⟩ := nodes here
  exact ⟨asked.2 unmarked, askedWithMark.2 unmarked, means ["open"]⟩

/-- The open hatch is not: it can be meant as a target but not be asked for, with or without a mark. -/
theorem openHatch_not_found : ofDefinition labelledHatch = .ok labelledHatchMachine ∧
    labelledHatch.root.DistinctKeys ∧
    (∃ n, labelledHatchMachine.root.at? ["open"] = some n ∧ n.id = "#open") ∧
    resolve labelledHatchMachine.root [] ("#" ++ "#open") = some ["open"] ∧
    labelledHatchMachine.nodePath? "#open" = none ∧ labelledHatchMachine.nodePath? ("#" ++ "#open") = none :=
  ⟨labelledHatch_made, labelledHatch_distinctKeys, ⟨_, rfl, rfl⟩, rfl, rfl, rfl⟩

end Machine

end StateWalk
