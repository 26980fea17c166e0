import Mathlib.Data.List.Forall2
import StateWalk.Proofs.Canonical.Reading
import StateWalk.Proofs.Value.Shuffle

/-!
# Keys of plain data

The key of plain data tells what the data are (`PlainData.key_eq_iff`): all that it leaves open is whether a
sequence is a list or a tuple, and in which order a mapping lists its entries. So different plain states are
different nodes.

The proof reads the data off their canonical text, one level at a time: the kind by the first character, the
parts because a printed list or object falls into its parts in one way only. The entries of a mapping come out
in the order of their keys, and sorting them is a shuffle.
-/

namespace StateWalk.Value

/-- The mapping that has these texts for keys. -/
def textMapping (es : List (String × Value)) : Value := mapping (es.map fun e => (text e.1, e.2))

/-- Data made of nothing, conditions, integers, texts, lists, tuples and mappings of texts. -/
inductive PlainData : Value → Prop where
  | null : PlainData null
  | bool (b : Bool) : PlainData (bool b)
  | int (n : Int) : PlainData (int n)
  | text (s : String) : PlainData (text s)
  | list {vs : List Value} : (∀ v ∈ vs, PlainData v) → PlainData (list vs)
  | tuple {vs : List Value} : (∀ v ∈ vs, PlainData v) → PlainData (tuple vs)
  | mapping {es : List (String × Value)} : (es.map Prod.fst).Nodup → (∀ e ∈ es, PlainData e.2) →
      PlainData (textMapping es)

mutual

/-- Read all tuples as lists. -/
def asLists : Value → Value
  | list vs | tuple vs => list (allAsLists vs)
  | mapping es => mapping (entriesAsLists es)
  | v => v

def allAsLists : List Value → List Value
  | [] => []
  | v :: vs => asLists v :: allAsLists vs

def entriesAsLists : List (Value × Value) → List (Value × Value)
  | [] => []
  | (k, v) :: es => (k, asLists v) :: entriesAsLists es

end

theorem allAsLists_eq_map (vs : List Value) : allAsLists vs = vs.map asLists := by
  induction vs with
  | nil => rfl
  | cons v vs ih => simp [allAsLists, ih]

theorem entriesAsLists_eq_map (es : Entries) : entriesAsLists es = es.map fun e => (e.1, e.2.asLists) := by
  induction es with
  | nil => rfl
  | cons e es ih => simp [entriesAsLists, ih]

@[simp]
theorem asLists_list (vs : List Value) : (list vs).asLists = list (vs.map asLists) := by
  rw [asLists, allAsLists_eq_map]

@[simp]
theorem asLists_tuple (vs : List Value) : (tuple vs).asLists = list (vs.map asLists) := by
  rw [asLists, allAsLists_eq_map]

@[simp]
theorem asLists_textMapping (es : List (String × Value)) :
    (textMapping es).asLists = textMapping (es.map fun e => (e.1, e.2.asLists)) := by
  rw [textMapping, asLists, entriesAsLists_eq_map, textMapping, List.map_map, List.map_map]
  rfl

theorem canonical_textMapping (es : List (String × Value)) :
    (textMapping es).canonical = .object (es.map fun e => (e.1, e.2.canonical)) := by
  have plain : (es.map fun e => (text e.1, e.2)).all (fun e => e.1.isPlainText) = true := by
    simp [isPlainText]
  rw [textMapping, canonical, mappingForm, if_pos plain, canonicalEntries_eq_map, List.map_map, List.map_map]
  rfl

/-! ## Shuffling parts -/

namespace Shuffle

theorem items {vs ws : List Value} (h : List.Forall₂ Shuffle vs ws) (before : List Value) :
    Shuffle (list (before ++ vs)) (list (before ++ ws)) := by
  induction h generalizing before with
  | nil => exact .refl _
  | @cons v w vs ws first _ ih =>
    have others := ih (before ++ [w])
    rw [List.append_assoc, List.append_assoc] at others
    exact (Shuffle.part (.list before vs) first).trans others

theorem values {es fs : Entries} (h : List.Forall₂ (fun e f => e.1 = f.1 ∧ Shuffle e.2 f.2) es fs)
    (before : Entries) : Shuffle (mapping (before ++ es)) (mapping (before ++ fs)) := by
  induction h generalizing before with
  | nil => exact .refl _
  | @cons e f es fs first _ ih =>
    obtain ⟨key, v⟩ := e
    obtain ⟨key', w⟩ := f
    obtain ⟨rfl, values⟩ := first
    have others := ih (before ++ [(key, w)])
    rw [List.append_assoc, List.append_assoc] at others
    exact (Shuffle.part (.mappingValue before key es) values).trans others

theorem textMapping_perm {es fs : List (String × Value)} (once : (es.map Prod.fst).Nodup) (perm : es.Perm fs) :
    Shuffle (textMapping es) (textMapping fs) :=
  .entries (textsOnce_textMapping once) (perm.map _)

theorem textMapping_values {es fs : List (String × Value)}
    (h : List.Forall₂ (fun e f => e.1 = f.1 ∧ Shuffle e.2 f.2) es fs) :
    Shuffle (textMapping es) (textMapping fs) := by
  refine values ?_ []
  rw [List.forall₂_map_left_iff, List.forall₂_map_right_iff]
  exact h.imp fun _ _ same => ⟨congrArg text same.1, same.2⟩

end Shuffle

/-! ## Reading plain data off its key -/

theorem PlainData.hasKey {v : Value} (h : PlainData v) : v.hasKey = true := by
  induction h with
  | null | bool | int | text => rfl
  | list _ ih | tuple _ ih =>
    exact (hasKey_list _).trans (List.all_eq_true.2 ih)
  | mapping _ _ ih =>
    rw [textMapping, hasKey_mapping, List.all_map]
    exact List.all_eq_true.2 ih

theorem PlainData.canonical_asLists {v : Value} (h : PlainData v) : v.asLists.canonical = v.canonical := by
  induction h with
  | null | bool | int | text => rfl
  | list _ ih | tuple _ ih =>
    simp only [asLists_list, asLists_tuple, canonical, canonicalAll_eq_map, List.map_map]
    exact congrArg Canonical.array (List.map_congr_left ih)
  | mapping _ _ ih =>
    simp only [asLists_textMapping, canonical_textMapping, List.map_map]
    exact congrArg Canonical.object (List.map_congr_left fun e mem => congrArg (Prod.mk e.1) (ih e mem))

/-- Plain data of different kinds print differently. -/
theorem PlainData.kind_eq {v w : Value} (hv : PlainData v) (hw : PlainData w)
    (eq : v.canonical.render = w.canonical.render) : v.canonical.kind = w.canonical.kind := by
  have exact {v} (h : PlainData v) : ∀ x, v.canonical ≠ .float x := by
    intro x eq
    cases h with
    | mapping =>
      rw [canonical_textMapping] at eq
      cases eq
    | _ => cases eq
  rw [← Canonical.kindOf_render (exact hv), eq, Canonical.kindOf_render (exact hw)]

/-- Mappings of texts that print alike have the same keys, and values that do. -/
theorem values_of_render_eq {es fs : List (String × Value)}
    (eq : (textMapping es).canonical.render = (textMapping fs).canonical.render) :
    List.Forall₂ (fun e f => e.1 = f.1 ∧ e.2.canonical.render = f.2.canonical.render)
      (Canonical.sortByName es) (Canonical.sortByName fs) := by
  rw [canonical_textMapping, canonical_textMapping] at eq
  have members := Canonical.members_of_render_eq eq
  rw [List.map_map, List.map_map] at members
  have printed (es : List (String × Value)) :
      Canonical.sortByName (es.map fun e => (e.1, e.2.canonical.render)) =
        (Canonical.sortByName es).map fun e => (e.1, e.2.canonical.render) :=
    Canonical.sortByName_map (fun v => v.canonical.render) es
  change Canonical.sortByName (es.map fun e => (e.1, e.2.canonical.render)) =
    Canonical.sortByName (fs.map fun e => (e.1, e.2.canonical.render)) at members
  rw [printed, printed, ← List.forall₂_eq_eq_eq, List.forall₂_map_left_iff,
    List.forall₂_map_right_iff] at members
  exact members.imp fun _ _ => Prod.mk.inj

/-- Lists of items that print alike, where such items are shuffles of each other. -/
theorem items_shuffle {vs ws : List Value}
    (each : ∀ v ∈ vs, ∀ w ∈ ws, v.canonical.render = w.canonical.render → Shuffle v.asLists w.asLists)
    (eq : (Canonical.array (vs.map canonical)).render = (Canonical.array (ws.map canonical)).render) :
    Shuffle (list (vs.map asLists)) (list (ws.map asLists)) := by
  have items := Canonical.items_of_render_eq eq
  rw [List.map_map, List.map_map, ← List.forall₂_eq_eq_eq, List.forall₂_map_left_iff,
    List.forall₂_map_right_iff, List.forall₂_iff_zip] at items
  refine Shuffle.items ?_ []
  rw [List.forall₂_map_left_iff, List.forall₂_map_right_iff, List.forall₂_iff_zip]
  exact ⟨items.1, fun mem => each _ (List.of_mem_zip mem).1 _ (List.of_mem_zip mem).2 (items.2 mem)⟩

/-- Mappings of texts that print alike, where values that do are shuffles of each other. -/
theorem textMapping_shuffle {es fs : List (String × Value)} (once : (es.map Prod.fst).Nodup)
    (once' : (fs.map Prod.fst).Nodup)
    (each : ∀ e ∈ es, ∀ f ∈ fs,
      e.2.canonical.render = f.2.canonical.render → Shuffle e.2.asLists f.2.asLists)
    (eq : (textMapping es).canonical.render = (textMapping fs).canonical.render) :
    Shuffle (textMapping es).asLists (textMapping fs).asLists := by
  have sorted : Shuffle (textMapping ((Canonical.sortByName es).map fun e => (e.1, e.2.asLists)))
      (textMapping ((Canonical.sortByName fs).map fun e => (e.1, e.2.asLists))) := by
    have values := values_of_render_eq eq
    rw [List.forall₂_iff_zip] at values
    refine Shuffle.textMapping_values ?_
    rw [List.forall₂_map_left_iff, List.forall₂_map_right_iff, List.forall₂_iff_zip]
    refine ⟨values.1, fun {e f} mem => ⟨(values.2 mem).1, ?_⟩⟩
    have left : e ∈ es := (Canonical.sortByName_perm es).mem_iff.1 (List.of_mem_zip mem).1
    have right : f ∈ fs := (Canonical.sortByName_perm fs).mem_iff.1 (List.of_mem_zip mem).2
    exact each e left f right (values.2 mem).2
  have inOrder {es : List (String × Value)} (once : (es.map Prod.fst).Nodup) :
      Shuffle (textMapping (es.map fun e => (e.1, e.2.asLists)))
        (textMapping ((Canonical.sortByName es).map fun e => (e.1, e.2.asLists))) := by
    refine Shuffle.textMapping_perm ?_ ((Canonical.sortByName_perm es).symm.map _)
    rwa [List.map_map]
  rw [asLists_textMapping, asLists_textMapping]
  exact (inOrder once).trans (sorted.trans (inOrder once').symm)

theorem kind_textMapping (es : List (String × Value)) : (textMapping es).canonical.kind = .object := by
  rw [canonical_textMapping]
  rfl

/-- Lists and tuples are told from other data, but not from each other. -/
theorem PlainData.exists_items {v : Value} (h : PlainData v) (kind : v.canonical.kind = .array) :
    ∃ vs : List Value, (∀ v ∈ vs, PlainData v) ∧ v.canonical = .array (vs.map canonical) ∧
      v.asLists = .list (vs.map asLists) := by
  cases h with
  | @list vs items =>
    exact ⟨vs, items, by rw [canonical, canonicalAll_eq_map], asLists_list vs⟩
  | @tuple vs items =>
    exact ⟨vs, items, by rw [canonical, canonicalAll_eq_map], asLists_tuple vs⟩
  | bool b => cases b <;> cases kind
  | mapping =>
    rw [kind_textMapping] at kind
    cases kind
  | null | int | text => cases kind

/-- Plain data that print alike are shuffles of each other, once tuples are read as lists. -/
theorem PlainData.shuffle_of_render_eq {v w : Value} (hv : PlainData v) (hw : PlainData w)
    (eq : v.canonical.render = w.canonical.render) : Shuffle v.asLists w.asLists := by
  have kinds := hv.kind_eq hw eq
  induction hv generalizing w with
  | null =>
    cases hw with
    | null => exact .refl _
    | bool b => cases b <;> cases kinds
    | mapping => cases kinds.trans (kind_textMapping _)
    | _ => cases kinds
  | bool b =>
    cases hw with
    | bool b' =>
      have same : b = b' := by
        revert kinds
        cases b <;> cases b' <;> decide
      rw [same]
      exact .refl _
    | mapping => cases b <;> cases kinds.trans (kind_textMapping _)
    | _ => cases b <;> cases kinds
  | int n =>
    cases hw with
    | int n' =>
      have same : n = n' := Canonical.renderInt_injective eq
      rw [same]
      exact .refl _
    | bool b => cases b <;> cases kinds
    | mapping => cases kinds.trans (kind_textMapping _)
    | _ => cases kinds
  | text s =>
    cases hw with
    | text s' =>
      have same : s = s' := Canonical.renderText_injective eq
      rw [same]
      exact .refl _
    | bool b => cases b <;> cases kinds
    | mapping => cases kinds.trans (kind_textMapping _)
    | _ => cases kinds
  | list plain ih | tuple plain ih =>
    obtain ⟨ws, plain', form, lists⟩ := hw.exists_items kinds.symm
    rw [canonical, canonicalAll_eq_map, form] at eq
    simp only [asLists_list, asLists_tuple, lists]
    exact items_shuffle (fun v mem w mem' same =>
      ih v mem (plain' w mem') same ((plain v mem).kind_eq (plain' w mem') same)) eq
  | @mapping es once plain ih =>
    cases hw with
    | @mapping fs once' plain' =>
      exact textMapping_shuffle once once' (fun e mem f mem' same =>
        ih e mem (plain' f mem') same ((plain e mem).kind_eq (plain' f mem') same)) eq
    | bool b => cases b <;> cases (kind_textMapping _).symm.trans kinds
    | _ => cases (kind_textMapping _).symm.trans kinds

/-- **The key of plain data tells what the data are.** Two of them have the same key exactly if they are
equal, once tuples are read as lists and up to the order in which mappings list their entries. -/
theorem PlainData.key_eq_iff {v w : Value} (hv : PlainData v) (hw : PlainData w) :
    v.key = .ok v.canonicalText ∧ w.key = .ok w.canonicalText ∧
      (v.key = w.key ↔ Shuffle v.asLists w.asLists) := by
  have left := key_of_hasKey hv.hasKey
  have right := key_of_hasKey hw.hasKey
  refine ⟨left, right, ?_⟩
  rw [left, right, Except.ok.injEq]
  constructor
  · intro eq
    exact hv.shuffle_of_render_eq hw (String.ofList_injective eq)
  · intro shuffle
    have alike := shuffle.alike.render
    have forms : v.canonical.render = w.canonical.render := by
      rw [← hv.canonical_asLists, ← hw.canonical_asLists]
      exact alike
    exact congrArg String.ofList forms

/-- An order, its lines in a tuple and the note last. -/
def order : Value :=
  textMapping [("lines", .tuple [.int 1, .int (-20), .bool true]), ("note", .text "\"urgent\" \\ ü\n")]

/-- The same order, its lines in a list and the note first. -/
def noteFirst : Value :=
  textMapping [("note", .text "\"urgent\" \\ ü\n"), ("lines", .list [.int 1, .int (-20), .bool true])]

theorem order_plainData : PlainData order := by
  have lines : PlainData (.tuple [.int 1, .int (-20), .bool true]) := by
    refine .tuple (List.forall_mem_cons.2 ⟨.int 1, List.forall_mem_cons.2 ⟨.int (-20), ?_⟩⟩)
    exact List.forall_mem_singleton.2 (.bool true)
  exact .mapping (by decide) (List.forall_mem_cons.2 ⟨lines, List.forall_mem_singleton.2 (.text _)⟩)

theorem noteFirst_plainData : PlainData noteFirst := by
  have lines : PlainData (.list [.int 1, .int (-20), .bool true]) := by
    refine .list (List.forall_mem_cons.2 ⟨.int 1, List.forall_mem_cons.2 ⟨.int (-20), ?_⟩⟩)
    exact List.forall_mem_singleton.2 (.bool true)
  exact .mapping (by decide) (List.forall_mem_cons.2 ⟨.text _, List.forall_mem_singleton.2 lines⟩)

/-- The two orders have the same key. The integer one, the text `1` and the truth all have different keys, so
none of them is a shuffle of another. -/
theorem order_key_eq_iff :
    PlainData order ∧ PlainData noteFirst ∧ order.key = noteFirst.key ∧
      (PlainData (.int 1) ∧ PlainData (.text "1") ∧ ¬ Shuffle (.int 1) (.text "1")) ∧
      PlainData (.bool true) ∧ ¬ Shuffle (.int 1) (.bool true) := by
  have same : Shuffle order.asLists noteFirst.asLists := by
    rw [order, noteFirst, asLists_textMapping, asLists_textMapping]
    exact Shuffle.textMapping_perm (by decide) (.swap ..)
  have eq := (order_plainData.key_eq_iff noteFirst_plainData).2.2.2 same
  have text := ((PlainData.int 1).key_eq_iff (.text "1")).2.2
  have truth := ((PlainData.int 1).key_eq_iff (.bool true)).2.2
  refine ⟨order_plainData, noteFirst_plainData, eq, ⟨.int 1, .text "1", fun shuffle => ?_⟩, .bool true,
    fun shuffle => ?_⟩
  · exact absurd (Except.ok.inj (text.2 shuffle)) (by decide)
  · exact absurd (Except.ok.inj (truth.2 shuffle)) (by decide)

end StateWalk.Value
