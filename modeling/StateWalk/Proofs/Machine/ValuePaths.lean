import Mathlib.Data.List.Nodup
import Mathlib.Data.List.TakeWhile
import StateWalk.Proofs.Machine.ActivePaths
import StateWalk.Proofs.Value.PlainData

/-!
# Paths of nested values

A state value that is made of texts and mappings is a tree. Its keys and texts are the nodes (`Value.Names`), its
texts the leaves (`Value.leaves`). The paths are listed leaf by leaf: first the leaf, then the nodes above it from
the inside out, as far as they are not listed yet (`Value.activePaths_eq`). So every node is listed once. It
stands before a node above it if it is on the way to the first leaf below that one, and only then
(`Snapshot.paths_of_nested`).
-/

namespace StateWalk

namespace Text

theorem dotted_cons (key : String) {path : List String} (h : path ≠ []) :
    dotted (key :: path) = key ++ "." ++ dotted path :=
  String.intercalate_append_of_ne_nil (List.cons_ne_nil key []) h

theorem takeWhile_dotted {key : String} (pointless : '.' ∉ key.toList) (path : List String) :
    (dotted (key :: path)).toList.takeWhile (· != '.') = key.toList := by
  have inside : ∀ c ∈ key.toList, (c != '.') = true := by
    intro c mem
    exact bne_iff_ne.2 fun point => pointless (point ▸ mem)
  by_cases alone : path = []
  · subst alone
    exact List.takeWhile_eq_self_iff.2 inside
  · rw [dotted_cons key alone, String.append_assoc, String.toList_append, List.takeWhile_append_of_pos inside,
      String.toList_append]
    exact List.append_nil key.toList

/-- Dotted names that begin with keys without points are equal only if the keys and what follows them are. -/
theorem dotted_cons_inj {key key' : String} {path path' : List String} (pointless : '.' ∉ key.toList)
    (pointless' : '.' ∉ key'.toList) (same : dotted (key :: path) = dotted (key' :: path')) :
    key = key' ∧ (path = [] ↔ path' = []) ∧ dotted path = dotted path' := by
  obtain rfl : key = key' := by
    rw [← String.toList_inj, ← takeWhile_dotted pointless path, same, takeWhile_dotted pointless' path']
  have longer {rest : List String} (h : rest ≠ []) : dotted [key] ≠ dotted (key :: rest) := by
    intro eq
    have lt : (dotted [key]).length < (dotted (key :: rest)).length :=
      length_dotted_lt (List.prefix_append [key] rest) (List.cons_ne_nil key []) (by simpa using h)
    rw [eq] at lt
    exact Nat.lt_irrefl _ lt
  refine ⟨rfl, ?_⟩
  by_cases alone : path = [] <;> by_cases alone' : path' = []
  · subst alone alone'
    exact ⟨Iff.rfl, rfl⟩
  · subst alone
    exact absurd same (longer alone')
  · subst alone'
    exact absurd same.symm (longer alone)
  · rw [dotted_cons key alone, dotted_cons key alone', String.append_right_inj] at same
    exact ⟨iff_of_false alone alone', same⟩

end Text

namespace Value

/-! ## Nodes and leaves -/

/-- Made of texts and of mappings that are not empty, where no key has a point in it. -/
inductive Nested : Value → Prop where
  | text (s : String) : Nested (text s)
  | textMember (naming : Naming) (s : String) : Nested (textMember naming s)
  | mapping {es : List (String × Value)} : es ≠ [] → (es.map Prod.fst).Nodup →
    (∀ e ∈ es, '.' ∉ e.1.toList) → (∀ e ∈ es, Nested e.2) → Nested (textMapping es)

/-- The value has a node at the path: a text, or a key of a mapping. -/
inductive Names : Value → List String → Prop where
  | text (s : String) : Names (text s) [s]
  | textMember (naming : Naming) (s : String) : Names (textMember naming s) [s]
  | key {es : Entries} {key : String} {v : Value} : (.text key, v) ∈ es → Names (mapping es) [key]
  | inside {es : Entries} {key : String} {v : Value} {path : List String} : (.text key, v) ∈ es →
    Names v path → Names (mapping es) (key :: path)

/-- The value has nodes at both paths, one above the other. -/
structure Above (v : Value) (outer inner : List String) : Prop where
  outer_named : v.Names outer
  inner_named : v.Names inner
  begins : outer <+: inner
  ne : outer ≠ inner

mutual

/-- The paths of the leaves. -/
def leaves : Value → List (List String)
  | text s | textMember _ s => [[s]]
  | mapping es => leavesAmong es
  | _ => [[]]

def leavesAmong : Entries → List (List String)
  | [] => []
  | (k, v) :: es => (leaves v).map (k.label :: ·) ++ leavesAmong es

end

mutual

/-- The nodes on the way to the leaves are listed, leaf by leaf. -/
theorem activePaths_eq (v : Value) (path : List String) : v.activePaths path =
    (v.leaves.flatMap fun leaf => Text.dottedBeginnings (path ++ leaf)).foldl Text.addNew [] := by
  cases v with
  | text s | textMember _ s =>
    have once := Text.nodup_dottedBeginnings (path ++ [s])
    rw [activePaths, leaves, List.flatMap_singleton, Text.foldl_addNew_of_nodup once, List.nil_append,
      Text.dottedBeginnings_concat]
  | mapping es =>
    rw [activePaths, leaves]
    exact activePathsAmong_eq es path []
  | _ =>
    have once := Text.nodup_dottedBeginnings path
    change Text.dottedBeginnings path = ([[]].flatMap _).foldl _ []
    rw [List.flatMap_singleton, List.append_nil, Text.foldl_addNew_of_nodup once, List.nil_append]

theorem activePathsAmong_eq (es : Entries) (path found : List String) : activePathsAmong path found es =
    ((leavesAmong es).flatMap fun leaf => Text.dottedBeginnings (path ++ leaf)).foldl Text.addNew found := by
  cases es with
  | nil => rfl
  | cons e es =>
    obtain ⟨k, v⟩ := e
    have under : (fun leaf => Text.dottedBeginnings (path ++ k.label :: leaf)) =
        fun leaf => Text.dottedBeginnings (path ++ [k.label] ++ leaf) :=
      funext fun leaf => congrArg Text.dottedBeginnings (List.append_cons path k.label leaf)
    rw [activePathsAmong, activePathsAmong_eq es, activePaths_eq v, Text.foldl_foldl_addNew, leavesAmong,
      List.flatMap_append, List.foldl_append, List.flatMap_map, under, List.foldl_nil]

end

variable {es : List (String × Value)} {path : List String} {v : Value}

theorem leaves_textMapping (es : List (String × Value)) :
    (textMapping es).leaves = es.flatMap fun e => e.2.leaves.map (e.1 :: ·) := by
  rw [textMapping, leaves]
  induction es with
  | nil => rfl
  | cons e es ih =>
    rw [List.map_cons, leavesAmong, ih, List.flatMap_cons]
    rfl

theorem mem_leaves_textMapping :
    path ∈ (textMapping es).leaves ↔ ∃ e ∈ es, ∃ leaf ∈ e.2.leaves, path = e.1 :: leaf := by
  simp only [leaves_textMapping, List.mem_flatMap, List.mem_map, eq_comm]

theorem names_textMapping_iff : (textMapping es).Names path ↔
    ∃ e ∈ es, ∃ below, (below = [] ∨ e.2.Names below) ∧ path = e.1 :: below := by
  have entry {key : String} {v : Value} : (.text key, v) ∈ es.map (fun e => (text e.1, e.2)) ↔ (key, v) ∈ es := by
    simp [Prod.ext_iff]
  constructor
  · intro named
    cases named with
    | key mem => exact ⟨_, entry.1 mem, [], .inl rfl, rfl⟩
    | inside mem named => exact ⟨_, entry.1 mem, _, .inr named, rfl⟩
  · rintro ⟨e, mem, below, rfl | named, rfl⟩
    · exact .key (entry.2 mem)
    · exact .inside (entry.2 mem) named

theorem Names.ne_nil (named : v.Names path) : path ≠ [] := by
  cases named <;> exact List.cons_ne_nil _ _

/-- No key at the top has more than one leaf below it. -/
def Narrow (v : Value) : Prop :=
  ∀ leaf ∈ v.leaves, ∀ leaf' ∈ v.leaves, leaf.head? = leaf'.head? → leaf = leaf'

/-! ## Nodes of nested values -/

namespace Nested

theorem leaves_ne_nil (h : v.Nested) : v.leaves ≠ [] := by
  induction h with
  | text | textMember => exact List.cons_ne_nil _ _
  | mapping some_entry _ _ _ ih =>
    obtain ⟨e, mem⟩ := List.exists_mem_of_ne_nil _ some_entry
    obtain ⟨leaf, ends⟩ := List.exists_mem_of_ne_nil _ (ih e mem)
    exact List.ne_nil_of_mem (mem_leaves_textMapping.2 ⟨e, mem, leaf, ends, rfl⟩)

/-- The nodes are what stands on the way to the leaves. -/
theorem names_iff (h : v.Nested) : v.Names path ↔ path ≠ [] ∧ ∃ leaf ∈ v.leaves, path <+: leaf := by
  induction h generalizing path with
  | text s | textMember _ s =>
    rw [leaves]
    constructor
    · intro named
      cases named
      exact ⟨List.cons_ne_nil _ _, [s], List.mem_singleton_self _, List.prefix_rfl⟩
    · rintro ⟨some_key, leaf, mem, begins⟩
      obtain rfl := List.mem_singleton.1 mem
      obtain none | ⟨below, rfl, none⟩ := List.prefix_cons_iff.1 begins
      · exact absurd none some_key
      · rw [List.prefix_nil.1 none]
        constructor
  | mapping _ _ _ nested ih =>
    rw [names_textMapping_iff]
    constructor
    · rintro ⟨e, mem, below, named, rfl⟩
      have under : ∃ leaf ∈ e.2.leaves, below <+: leaf := by
        obtain rfl | named := named
        · obtain ⟨leaf, ends⟩ := List.exists_mem_of_ne_nil _ (nested e mem).leaves_ne_nil
          exact ⟨leaf, ends, List.nil_prefix⟩
        · exact ((ih e mem).1 named).2
      obtain ⟨leaf, ends, begins⟩ := under
      exact ⟨List.cons_ne_nil _ _, e.1 :: leaf, mem_leaves_textMapping.2 ⟨e, mem, leaf, ends, rfl⟩,
        List.cons_prefix_cons.2 ⟨rfl, begins⟩⟩
    · rintro ⟨some_key, _, listed, under⟩
      obtain ⟨e, mem, leaf, ends, rfl⟩ := mem_leaves_textMapping.1 listed
      obtain none | ⟨below, rfl, begins⟩ := List.prefix_cons_iff.1 under
      · exact absurd none some_key
      · refine ⟨e, mem, below, ?_, rfl⟩
        by_cases none : below = []
        · exact .inl none
        · exact .inr ((ih e mem).2 ⟨none, leaf, ends, begins⟩)

/-- A node is told by its dotted name. -/
theorem dotted_inj (h : v.Nested) {path path' : List String} (named : v.Names path) (named' : v.Names path')
    (same : Text.dotted path = Text.dotted path') : path = path' := by
  induction h generalizing path path' with
  | text | textMember =>
    cases named
    cases named'
    rfl
  | mapping _ once pointless nested ih =>
    obtain ⟨e, mem, below, inside, rfl⟩ := names_textMapping_iff.1 named
    obtain ⟨e', mem', below', inside', rfl⟩ := names_textMapping_iff.1 named'
    -- the points behind the first keys tell the entry, what follows is told by the value there
    obtain ⟨key, ends, rest⟩ := Text.dotted_cons_inj (pointless e mem) (pointless e' mem') same
    obtain rfl : e = e' := List.inj_on_of_nodup_map once mem mem' key
    obtain rfl | inside := inside
    · rw [ends.1 rfl]
    · obtain rfl | inside' := inside'
      · rw [ends.2 rfl]
      · rw [ih e mem inside inside' rest]

/-- No leaf is on the way to another one. -/
theorem leaf_eq_of_prefix (h : v.Nested) {leaf leaf' : List String} (ends : leaf ∈ v.leaves)
    (ends' : leaf' ∈ v.leaves) (begins : leaf <+: leaf') : leaf = leaf' := by
  induction h generalizing leaf leaf' with
  | text | textMember => rw [List.mem_singleton.1 ends, List.mem_singleton.1 ends']
  | mapping _ once _ _ ih =>
    obtain ⟨e, mem, below, inside, rfl⟩ := mem_leaves_textMapping.1 ends
    obtain ⟨e', mem', below', inside', rfl⟩ := mem_leaves_textMapping.1 ends'
    obtain ⟨key, goes_on⟩ := List.cons_prefix_cons.1 begins
    obtain rfl : e = e' := List.inj_on_of_nodup_map once mem mem' key
    rw [ih e mem inside inside' goes_on]

theorem ne_nil_of_mem_leaves (h : v.Nested) {leaf : List String} (ends : leaf ∈ v.leaves) : leaf ≠ [] := by
  cases h with
  | text | textMember =>
    rw [List.mem_singleton.1 ends]
    exact List.cons_ne_nil _ _
  | mapping =>
    obtain ⟨e, -, below, -, rfl⟩ := mem_leaves_textMapping.1 ends
    exact List.cons_ne_nil _ _

/-! ## The order of the paths -/

theorem dotted_mem_iff (h : v.Nested) (named : v.Names path) {leaf : List String} (ends : leaf ∈ v.leaves) :
    Text.dotted path ∈ Text.dottedBeginnings leaf ↔ path <+: leaf := by
  rw [Text.mem_dottedBeginnings]
  constructor
  · rintro ⟨beginning, begins, some_key, same⟩
    rwa [h.dotted_inj named (h.names_iff.2 ⟨some_key, leaf, ends, begins⟩) same]
  · intro begins
    exact ⟨path, begins, named.ne_nil, rfl⟩

/-- There is a first leaf below a node. -/
theorem exists_first_leaf (h : v.Nested) (named : v.Names path) :
    ∃ leaf ∈ v.leaves, path <+: leaf ∧ v.leaves.find? path.isPrefixOf = some leaf := by
  obtain ⟨-, below, ends, begins⟩ := h.names_iff.1 named
  have found : (v.leaves.find? path.isPrefixOf).isSome :=
    List.find?_isSome.2 ⟨below, ends, List.isPrefixOf_iff_prefix.2 begins⟩
  obtain ⟨leaf, found⟩ := Option.isSome_iff_exists.1 found
  exact ⟨leaf, List.mem_of_find?_eq_some found, List.isPrefixOf_iff_prefix.1 (List.find?_some found), found⟩

/-- On the way to the leaves, a node comes up before one above it if it stands on the way to the first leaf below
that one. -/
theorem idxOf_lt_iff (h : v.Nested) {outer inner : List String} (above : v.Above outer inner) :
    (v.leaves.flatMap Text.dottedBeginnings).idxOf (Text.dotted inner) <
        (v.leaves.flatMap Text.dottedBeginnings).idxOf (Text.dotted outer) ↔
      ∃ leaf, v.leaves.find? outer.isPrefixOf = some leaf ∧ inner <+: leaf := by
  obtain ⟨leaf, ends, begins, found⟩ := h.exists_first_leaf above.outer_named
  obtain ⟨-, before, after, split, others⟩ := List.find?_eq_some_iff_append.1 found
  -- neither node comes up before the first leaf below the outer one
  have skip {path : List String} (named : v.Names path) (under : outer <+: path) :
      Text.dotted path ∉ before.flatMap Text.dottedBeginnings := by
    intro mem
    obtain ⟨leaf', earlier, mem⟩ := List.mem_flatMap.1 mem
    have ends' : leaf' ∈ v.leaves := split ▸ List.mem_append_left _ earlier
    have begins' : outer <+: leaf' := under.trans ((h.dotted_mem_iff named ends').1 mem)
    have other := others leaf' earlier
    rw [List.isPrefixOf_iff_prefix.2 begins'] at other
    cases other
  have listed : Text.dotted outer ∈ Text.dottedBeginnings leaf :=
    (h.dotted_mem_iff above.outer_named ends).2 begins
  have shorter : (Text.dotted outer).length < (Text.dotted inner).length :=
    Text.length_dotted_lt above.begins above.outer_named.ne_nil above.ne
  simp only [found, Option.some.injEq, exists_eq_left']
  rw [split, List.flatMap_append, List.flatMap_cons, List.idxOf_append_of_notMem (skip above.inner_named above.begins),
    List.idxOf_append_of_notMem (skip above.outer_named List.prefix_rfl), Nat.add_lt_add_iff_left,
    List.idxOf_append_of_mem listed, ← h.dotted_mem_iff above.inner_named ends]
  by_cases under : Text.dotted inner ∈ Text.dottedBeginnings leaf
  · rw [List.idxOf_append_of_mem under]
    exact iff_of_true (Text.idxOf_dottedBeginnings_lt under listed shorter) under
  · rw [List.idxOf_append_of_notMem under]
    refine iff_of_false ?_ under
    have inside := List.idxOf_lt_length_iff.2 listed
    omega

/-- Where no node comes after one above it, any leaf is the first one below its first key. -/
theorem first_below_key (h : v.Nested)
    (first : ∀ outer inner, v.Above outer inner →
      ∃ leaf, v.leaves.find? outer.isPrefixOf = some leaf ∧ inner <+: leaf)
    {key : String} {rest : List String} (ends : key :: rest ∈ v.leaves) :
    v.leaves.find? [key].isPrefixOf = some (key :: rest) := by
  have begins : [key] <+: key :: rest := List.prefix_append [key] rest
  have outer : v.Names [key] := h.names_iff.2 ⟨List.cons_ne_nil _ _, _, ends, begins⟩
  have inner : v.Names (key :: rest) := h.names_iff.2 ⟨List.cons_ne_nil _ _, _, ends, List.prefix_rfl⟩
  obtain ⟨leaf, ends', begins', found⟩ := h.exists_first_leaf outer
  -- a key of the top is above the leaf, unless it is the leaf itself
  have under : key :: rest <+: leaf := by
    by_cases alone : [key] = key :: rest
    · rwa [← alone]
    · obtain ⟨leaf', found', under⟩ := first _ _ ⟨outer, inner, begins, alone⟩
      rwa [Option.some.inj (found.symm.trans found')]
  rw [found, h.leaf_eq_of_prefix ends ends' under]

/-- All nodes stand before the nodes above them only if no two leaves have the first key in common. -/
theorem leaves_first_iff (h : v.Nested) :
    (∀ outer inner, v.Above outer inner →
      ∃ leaf, v.leaves.find? outer.isPrefixOf = some leaf ∧ inner <+: leaf) ↔ v.Narrow := by
  constructor
  · intro first leaf ends leaf' ends' same
    obtain ⟨key, rest, rfl⟩ := List.exists_cons_of_ne_nil (h.ne_nil_of_mem_leaves ends)
    obtain ⟨key', rest', rfl⟩ := List.exists_cons_of_ne_nil (h.ne_nil_of_mem_leaves ends')
    obtain rfl := Option.some.inj same
    exact Option.some.inj ((h.first_below_key first ends).symm.trans (h.first_below_key first ends'))
  · intro narrow outer inner above
    obtain ⟨leaf, ends, begins, found⟩ := h.exists_first_leaf above.outer_named
    obtain ⟨-, leaf', ends', under⟩ := h.names_iff.1 above.inner_named
    have same : leaf = leaf' := by
      apply narrow leaf ends leaf' ends'
      obtain ⟨key, keys, rfl⟩ := List.exists_cons_of_ne_nil above.outer_named.ne_nil
      obtain ⟨_, rfl⟩ := begins
      obtain ⟨_, rfl⟩ := above.begins.trans under
      rfl
    exact ⟨leaf, found, same ▸ under⟩

end Nested

end Value

open Value

variable {s : Snapshot}

theorem Snapshot.paths_eq_names (s : Snapshot) :
    s.paths = (s.value.leaves.flatMap Text.dottedBeginnings).foldl Text.addNew [] :=
  activePaths_eq s.value []

/-- **The paths of a nested value name every node once, but not every node before those above it.** What is listed
are the dotted names of the nodes, without repetitions, and different nodes have different names. A node stands
before one above it exactly if it is on the way to the first leaf below that one. So all nodes stand before those
above them exactly if no key at the top has more than one leaf below it. -/
theorem Snapshot.paths_of_nested (nested : s.value.Nested) :
    s.paths.Nodup ∧ (∀ name, name ∈ s.paths ↔ ∃ path, s.value.Names path ∧ name = Text.dotted path) ∧
    (∀ path path', s.value.Names path → s.value.Names path' → Text.dotted path = Text.dotted path' →
      path = path') ∧
    (∀ outer inner, s.value.Above outer inner →
      (s.paths.idxOf (Text.dotted inner) < s.paths.idxOf (Text.dotted outer) ↔
        ∃ leaf, s.value.leaves.find? outer.isPrefixOf = some leaf ∧ inner <+: leaf)) ∧
    ((∀ outer inner, s.value.Above outer inner →
      s.paths.idxOf (Text.dotted inner) < s.paths.idxOf (Text.dotted outer)) ↔ s.value.Narrow) := by
  have order (outer inner : List String) (above : s.value.Above outer inner) :
      s.paths.idxOf (Text.dotted inner) < s.paths.idxOf (Text.dotted outer) ↔
        ∃ leaf, s.value.leaves.find? outer.isPrefixOf = some leaf ∧ inner <+: leaf := by
    rw [s.paths_eq_names, Text.idxOf_foldl_addNew_lt_iff, List.nil_append]
    exact nested.idxOf_lt_iff above
  refine ⟨?_, fun name => ?_, fun _ _ => nested.dotted_inj, order, ?_⟩
  · rw [s.paths_eq_names]
    exact Text.nodup_foldl_addNew _ List.nodup_nil
  · simp only [s.paths_eq_names, Text.mem_foldl_addNew, List.not_mem_nil, false_or, List.mem_flatMap,
      Text.mem_dottedBeginnings, nested.names_iff]
    constructor
    · rintro ⟨leaf, ends, path, begins, some_key, rfl⟩
      exact ⟨path, ⟨some_key, leaf, ends, begins⟩, rfl⟩
    · rintro ⟨path, ⟨some_key, leaf, ends, begins⟩, rfl⟩
      exact ⟨leaf, ends, path, begins, some_key, rfl⟩
  · rw [← nested.leaves_first_iff]
    exact forall₂_congr fun outer inner => forall_congr' (order outer inner)

/-! ## A player -/

/-- A player with a tape in the deck, and a lamp beside it. -/
def lampPlayer : Snapshot where
  value := textMapping [("deck", textMapping [("tape", .text "playing")]), ("lamp", .text "on")]

/-- A player with a tape and a lamp in the deck. -/
def deckPlayer : Snapshot where
  value := textMapping [("deck", textMapping [("tape", .text "playing"), ("lamp", .text "on")])]

theorem lampPlayer_nested : lampPlayer.value.Nested := by
  have deck : (textMapping [("tape", .text "playing")]).Nested :=
    .mapping (by simp) (by decide) (by decide) (by simp [Nested.text])
  refine .mapping (by simp) (by decide) (by decide) ?_
  simp [deck, Nested.text]

theorem lampPlayer_narrow : lampPlayer.value.Narrow := by
  have leaves : lampPlayer.value.leaves = [["deck", "tape", "playing"], ["lamp", "on"]] := rfl
  rw [Narrow, leaves]
  decide

theorem deckPlayer_nested : deckPlayer.value.Nested := by
  have deck : (textMapping [("tape", .text "playing"), ("lamp", .text "on")]).Nested :=
    .mapping (by simp) (by decide) (by decide) (by simp [Nested.text])
  refine .mapping (by simp) (by decide) (by decide) ?_
  simp [deck]

/-- With the lamp beside the deck, every node stands before those above it. -/
theorem lampPlayer_leaves_first : lampPlayer.value.Nested ∧
    ∀ outer inner, lampPlayer.value.Above outer inner →
      lampPlayer.paths.idxOf (Text.dotted inner) < lampPlayer.paths.idxOf (Text.dotted outer) := by
  obtain ⟨-, -, -, -, first⟩ := Snapshot.paths_of_nested lampPlayer_nested
  exact ⟨lampPlayer_nested, first.2 lampPlayer_narrow⟩

/-- With the lamp in the deck, the deck stands before the lamp that is on. -/
theorem deckPlayer_deck_before_lamp : deckPlayer.value.Nested ∧
    deckPlayer.value.Above ["deck"] ["deck", "lamp", "on"] ∧
    deckPlayer.paths = ["deck.tape.playing", "deck.tape", "deck", "deck.lamp.on", "deck.lamp"] ∧
    ¬ deckPlayer.paths.idxOf (Text.dotted ["deck", "lamp", "on"]) < deckPlayer.paths.idxOf (Text.dotted ["deck"]) := by
  have deck : deckPlayer.value.Names ["deck"] := .key List.mem_cons_self
  have lamp : deckPlayer.value.Names ["deck", "lamp", "on"] :=
    .inside List.mem_cons_self (.inside (List.mem_cons_of_mem _ List.mem_cons_self) (.text "on"))
  exact ⟨deckPlayer_nested, ⟨deck, lamp, by decide, by decide⟩, rfl, by decide⟩

end StateWalk
