import StateWalk.Proofs.Value.Parts
import StateWalk.Proofs.Value.TaggedMappings
import StateWalk.Value.Tree

/-!
# Canonical trees are normal forms

The canonical tree of a value consists of nothing, conditions, numbers, texts, lists and mappings of plain texts
(`isTree_tree`), and on such values canonicalization changes nothing (`IsTree.tree_eq`). The form of the tree
is that of the value (`canonical_tree`), and with it the key. All of it goes by induction on the parts of a
value; a tree is its own, so one pass is enough (`canonicalize_normalizes`).
-/

namespace StateWalk.Value

/-! ## Trees -/

/-- Nothing, conditions, numbers, texts, and lists of such trees and mappings of plain texts to them. A member of
an enumeration of texts is a text, and one of integers an integer. -/
inductive IsTree : Value → Prop where
  | null : IsTree null
  | bool (b : Bool) : IsTree (bool b)
  | int (n : Int) : IsTree (int n)
  | intMember (naming : Naming) (n : Int) : IsTree (intMember naming n)
  | float (x : Binary64) : IsTree (float x)
  | text (s : String) : IsTree (text s)
  | textMember (naming : Naming) (s : String) : IsTree (textMember naming s)
  | list {vs : List Value} : (∀ v ∈ vs, IsTree v) → IsTree (list vs)
  | mapping {es : Entries} : (∀ e ∈ es, e.1.isPlainText = true) → (∀ e ∈ es, IsTree e.2) →
      IsTree (mapping es)

theorem isTree_ofFields {fs : List (String × Value)} (trees : ∀ f ∈ fs, IsTree f.2) : IsTree (ofFields fs) :=
  .mapping (List.forall_mem_map.2 fun _ _ => rfl) (List.forall_mem_map.2 trees)

theorem sortByText_perm (vs : List Value) : (sortByText vs).Perm vs :=
  Canonical.sortByName_labelled_perm canonicalText vs

theorem isTree_sorted {vs : List Value} (trees : ∀ v ∈ vs, IsTree v) : IsTree (list (sortByText vs)) :=
  .list fun v mem => trees v ((sortByText_perm vs).mem_iff.1 mem)

theorem tree_of_isPlainText {v : Value} (plain : v.isPlainText = true) : v.tree = v := by
  obtain ⟨s, rfl⟩ := exists_text_of_isPlainText plain
  rfl

theorem isPlainText_treeEntries {es : Entries} (plain : es.all (fun e => e.1.isPlainText) = true) :
    ∀ e ∈ treeEntries es, e.1.isPlainText = true := by
  rw [treeEntries_eq_map]
  refine List.forall_mem_map.2 fun e mem => ?_
  have text := List.all_eq_true.1 plain e mem
  exact (tree_of_isPlainText text).symm ▸ text

theorem isTree_mappingTree {es : Entries} (trees : ∀ e ∈ es, IsTree e.1.tree ∧ IsTree e.2.tree) :
    IsTree (mappingTree (es.all fun e => e.1.isPlainText) (treeEntries es)) := by
  rw [mappingTree]
  split
  next plain =>
    refine .mapping (isPlainText_treeEntries plain) ?_
    rw [treeEntries_eq_map]
    exact List.forall_mem_map.2 fun e mem => (trees e mem).2
  next =>
    refine isTree_ofFields (List.forall_mem_singleton.2 (isTree_sorted ?_))
    rw [treeEntries_eq_map, List.map_map]
    refine List.forall_mem_map.2 fun e mem => .list ?_
    exact List.forall_mem_cons.2 ⟨(trees e mem).1, List.forall_mem_singleton.2 (trees e mem).2⟩

theorem isTree_treeAll {vs : List Value} (trees : ∀ v ∈ vs, IsTree v.tree) : ∀ v ∈ treeAll vs, IsTree v := by
  rw [treeAll_eq_map]
  exact List.forall_mem_map.2 trees

/-- The tree of a value is one. -/
theorem isTree_tree (v : Value) : IsTree v.tree := by
  induction v using induction_on_parts with | step v ih
  cases v with
  | null => exact .null
  | bool b => exact .bool b
  | int n => exact .int n
  | float x => exact .float x
  | text s => exact .text s
  | textMember n s => exact .textMember n s
  | intMember n k => exact .intMember n k
  | member n v => exact ih v (.underlying n v)
  | bytes | date | callable | other => exact .text _
  | list vs => exact .list (isTree_treeAll fun v mem => ih v (.listItem mem))
  | tuple vs => exact .list (isTree_treeAll fun v mem => ih v (.tupleItem mem))
  | set vs => exact isTree_sorted (isTree_treeAll fun v mem => ih v (.setItem mem))
  | frozenSet vs => exact isTree_sorted (isTree_treeAll fun v mem => ih v (.frozenSetItem mem))
  | mapping es => exact isTree_mappingTree fun e mem => ⟨ih e.1 (.mappingKey mem), ih e.2 (.mappingValue mem)⟩
  | record className fs uncompared =>
    refine isTree_ofFields fun f mem => ?_
    obtain ⟨mem, compared⟩ := List.mem_filter.1 mem
    rw [treeFields_eq_map] at mem
    obtain ⟨g, field, rfl⟩ := List.mem_map.1 mem
    exact ih g.2 (.recordField field ((Bool.not_eq_true' _).mp compared))
  | model n fs added members dump =>
    cases dump with
    | ok v => exact ih v (.dumped n fs added members v)
    | error => exact .null
  | event type payload =>
    refine isTree_ofFields (List.forall_mem_cons.2 ⟨ih type (.eventType type payload), ?_⟩)
    exact List.forall_mem_singleton.2 (isTree_mappingTree fun e mem =>
      ⟨ih e.1 (.payloadKey mem), ih e.2 (.payloadValue mem)⟩)
  | step s e =>
    refine isTree_ofFields (List.forall_mem_cons.2 ⟨ih s (.stepState s e), ?_⟩)
    exact List.forall_mem_singleton.2 (ih e (.stepEvent s e))
  | snapshot v c e =>
    refine isTree_ofFields (List.forall_mem_cons.2 ⟨ih v (.snapshotValue v c e), ?_⟩)
    exact List.forall_mem_singleton.2 (ih c (.snapshotContext v c e))

/-- On trees, canonicalization changes nothing. -/
theorem IsTree.tree_eq {v : Value} (tree : IsTree v) : v.tree = v := by
  induction tree with
  | @list vs _ ih => rw [Value.tree, treeAll_eq_map, List.map_congr_left ih, List.map_id']
  | @mapping es plain _ ih =>
    have same : ∀ e ∈ es, (e.1.tree, e.2.tree) = e := fun e mem =>
      Prod.ext (tree_of_isPlainText (plain e mem)) (ih e mem)
    rw [Value.tree, mappingTree, if_pos (List.all_eq_true.2 plain), treeEntries_eq_map,
      List.map_congr_left same, List.map_id']
  | _ => rfl

theorem IsTree.hasKey {v : Value} (tree : IsTree v) : v.hasKey = true := by
  induction tree with
  | list _ ih =>
    rw [hasKey_list]
    exact List.all_eq_true.2 ih
  | mapping plain _ ih =>
    rw [hasKey_mapping]
    refine List.all_eq_true.2 fun e mem => ?_
    obtain ⟨s, name⟩ := exists_text_of_isPlainText (plain e mem)
    rw [name]
    exact ih e mem
  | _ => rfl

/-! ## Keys -/

/-- Sorting trees by their texts sorts their forms. -/
theorem canonical_sortByText (vs : List Value) :
    (sortByText vs).map canonical = Canonical.sortByText (vs.map canonical) := by
  have labelled : (vs.map canonical).map (fun c => (c.toText, c)) =
      (vs.map fun v => (v.canonicalText, v)).map fun p => (p.1, p.2.canonical) := by
    rw [List.map_map, List.map_map]
    rfl
  rw [sortByText, Canonical.sortByText, labelled, Canonical.sortByName_map, List.map_map, List.map_map]
  rfl

theorem canonical_list (vs : List Value) : (list vs).canonical = .array (vs.map canonical) := by
  rw [canonical, canonicalAll_eq_map]

theorem canonical_ofFields (fs : List (String × Value)) :
    (ofFields fs).canonical = .object (fs.map fun f => (f.1, f.2.canonical)) := by
  have texts : ∀ e ∈ fs.map (fun f => (text f.1, f.2)), e.1.isPlainText = true :=
    List.forall_mem_map.2 fun _ _ => rfl
  rw [ofFields, canonical_of_texts texts, List.map_map]
  rfl

theorem canonical_treeAll {vs : List Value} (same : ∀ v ∈ vs, v.tree.canonical = v.canonical) :
    (treeAll vs).map canonical = canonicalAll vs := by
  rw [treeAll_eq_map, canonicalAll_eq_map, List.map_map]
  exact List.map_congr_left same

theorem canonical_mappingTree {es : Entries} (keys : ∀ e ∈ es, e.1.tree.canonical = e.1.canonical)
    (values : ∀ e ∈ es, e.2.tree.canonical = e.2.canonical) :
    (mappingTree (es.all fun e => e.1.isPlainText) (treeEntries es)).canonical =
      mappingForm (es.all fun e => e.1.isPlainText) (canonicalEntries es) := by
  rw [canonicalEntries_eq_map, mappingTree, mappingForm]
  split
  next plain =>
    rw [canonical_of_texts (isPlainText_treeEntries plain), treeEntries_eq_map, List.map_map, List.map_map]
    refine congrArg Canonical.object (List.map_congr_left fun e mem => ?_)
    exact Prod.ext (congrArg memberName (keys e mem)) (values e mem)
  next =>
    rw [canonical_ofFields, List.map_singleton, canonical_list, canonical_sortByText, treeEntries_eq_map,
      List.map_map, List.map_map, List.map_map]
    have pairs : es.map (fun e => (list [e.1.tree, e.2.tree]).canonical) =
        es.map fun e => .array [e.1.canonical, e.2.canonical] := by
      refine List.map_congr_left fun e mem => ?_
      rw [canonical_list, List.map_cons, List.map_singleton, keys e mem, values e mem]
    exact congrArg (fun cs => Canonical.object [(mappingTag, .array (Canonical.sortByText cs))]) pairs

/-- The fields of a record that are compared have the forms of their trees. -/
theorem canonical_treeFields {fs : List (String × Value)} {uncompared : List String}
    (same : ∀ f ∈ fs, uncompared.contains f.1 = false → f.2.tree.canonical = f.2.canonical) :
    ((treeFields fs).filter fun f => !uncompared.contains f.1).map (fun f => (f.1, f.2.canonical)) =
      (canonicalFields fs).filter fun f => !uncompared.contains f.1 := by
  rw [treeFields_eq_map, canonicalFields_eq_map, List.filter_map, List.filter_map, List.map_map]
  refine List.map_congr_left fun f mem => ?_
  obtain ⟨mem, kept⟩ := List.mem_filter.1 mem
  exact Prod.ext rfl (same f mem ((Bool.not_eq_true' _).mp kept))

/-- The form of the tree of a value is the form of the value. -/
theorem canonical_tree (v : Value) : v.tree.canonical = v.canonical := by
  induction v using induction_on_parts with | step v ih
  cases v with
  | member n v => exact ih v (.underlying n v)
  | list vs =>
    rw [tree, canonical_list, canonical_treeAll fun v mem => ih v (.listItem mem)]
    rfl
  | tuple vs =>
    rw [tree, canonical_list, canonical_treeAll fun v mem => ih v (.tupleItem mem)]
    rfl
  | set vs =>
    rw [tree, canonical_list, canonical_sortByText, canonical_treeAll fun v mem => ih v (.setItem mem)]
    rfl
  | frozenSet vs =>
    rw [tree, canonical_list, canonical_sortByText, canonical_treeAll fun v mem => ih v (.frozenSetItem mem)]
    rfl
  | mapping es =>
    rw [tree, canonical_mappingTree (fun e mem => ih e.1 (.mappingKey mem)) fun e mem =>
      ih e.2 (.mappingValue mem)]
    rfl
  | record className fs uncompared =>
    have same : ∀ f ∈ fs, uncompared.contains f.1 = false → f.2.tree.canonical = f.2.canonical :=
      fun f mem compared => ih f.2 (.recordField mem compared)
    rw [tree, canonical_ofFields, canonical_treeFields same]
    rfl
  | model n fs added members dump =>
    cases dump with
    | ok v => exact ih v (.dumped n fs added members v)
    | error => rfl
  | event type payload =>
    rw [tree, canonical_ofFields, List.map_cons, List.map_singleton, ih type (.eventType type payload),
      canonical_mappingTree (fun e mem => ih e.1 (.payloadKey mem)) fun e mem => ih e.2 (.payloadValue mem)]
    rfl
  | step s e =>
    rw [tree, canonical_ofFields, List.map_cons, List.map_singleton, ih s (.stepState s e),
      ih e (.stepEvent s e)]
    rfl
  | snapshot v c e =>
    rw [tree, canonical_ofFields, List.map_cons, List.map_singleton, ih v (.snapshotValue v c e),
      ih c (.snapshotContext v c e)]
    rfl
  | _ => rfl

theorem canonicalText_tree (v : Value) : v.tree.canonicalText = v.canonicalText :=
  congrArg Canonical.toText (canonical_tree v)

/-! ## Canonicalization -/

/-- The key of a value is the text of its canonical tree. -/
theorem key_eq_text_of_tree (v : Value) : v.key = v.canonicalize.map canonicalText := by
  rw [key, canonicalize]
  cases v.failure? with
  | none => exact congrArg Except.ok (canonicalText_tree v).symm
  | some failure => rfl

theorem IsTree.canonicalize_eq {w : Value} (tree : IsTree w) : w.canonicalize = .ok w :=
  canonicalize_eq_ok_iff.2 ⟨tree.hasKey, tree.tree_eq⟩

/-- **Canonicalization reaches a normal form in one pass.** Exactly those values have a canonical tree in which no
validated record is found whose dump fails. The tree consists of nothing, conditions, numbers, texts, lists and
mappings of plain texts, it is its own canonical tree, and it has the key of the value. -/
theorem canonicalize_normalizes (v : Value) :
    ((∃ w, v.canonicalize = .ok w) ↔ ¬ Stuck v) ∧
      ∀ w, v.canonicalize = .ok w → IsTree w ∧ w.canonicalize = .ok w ∧ w.key = v.key := by
  constructor
  · rw [← hasKey_iff]
    constructor
    · rintro ⟨w, made⟩
      exact (canonicalize_eq_ok_iff.1 made).1
    · exact fun keyed => ⟨_, canonicalize_eq_ok_iff.2 ⟨keyed, rfl⟩⟩
  · intro w made
    obtain ⟨-, rfl⟩ := canonicalize_eq_ok_iff.1 made
    have tree := isTree_tree v
    refine ⟨tree, tree.canonicalize_eq, ?_⟩
    rw [key_eq_text_of_tree, key_eq_text_of_tree, tree.canonicalize_eq, made]

/-- A validated record of what was seen, which is dumped as it says. -/
def journal (seen : List Value) (dump : Except Failure Value) : Value :=
  model ⟨"Journal", "seen", "Journal(seen)"⟩ [("seen", set seen)] [] (.ok []) dump

/-- A journal of numbers, dumped as a mapping, becomes a mapping to the sorted list of them. -/
theorem journal_normalizes :
    ∃ w, (journal [int 2, int 1] (.ok (ofFields [("seen", set [int 2, int 1])]))).canonicalize = .ok w ∧
      IsTree w ∧ w.canonicalize = .ok w ∧ w.key = .ok "\x7b\"seen\":[1,2]\x7d" := by
  have key : (journal [int 2, int 1] (.ok (ofFields [("seen", set [int 2, int 1])]))).key =
      .ok "\x7b\"seen\":[1,2]\x7d" := by
    cbv
  have keyed := (key_eq_ok_iff.1 key).1
  obtain ⟨w, made⟩ := (canonicalize_normalizes _).1.2 ((hasKey_iff _).1 keyed)
  obtain ⟨tree, again, same⟩ := (canonicalize_normalizes _).2 w made
  exact ⟨w, made, tree, again, same.trans key⟩

/-- How a journal fails that would have to put a mapping into a set. -/
def unhashable : Failure := ⟨"TypeError", "unhashable type: 'dict'"⟩

/-- A journal of events whose dump fails has no canonical tree, and the set of them has one. -/
theorem journal_of_events_not_canonicalized :
    (journal [event (text "A") []] (.error unhashable)).canonicalize = .error unhashable.fault ∧
      ∃ w, (set [event (text "A") []]).canonicalize = .ok w :=
  ⟨rfl, _, rfl⟩

end StateWalk.Value
