import StateWalk.Proofs.Event.Notations
import StateWalk.Proofs.Model.CompoundKeys
import StateWalk.Proofs.Model.Transitions
import StateWalk.Proofs.Value.PlainData

/-!
# What the key of an event tells

The key of an event with plain data for a payload tells the type and the payload, up to the order of its entries
and but for a payload entry that has the name of the type (`PlainEvent.keys_agree_iff`). The type takes the place of
such an entry in the mapping that is keyed, so two events that differ in nothing else have one key
(`renaming_key_ignores_folder`).

The entries can be told apart because objects that print alike still do so when only the members of some names
are left: those of all other names are the payload, and the one of the type's name is the type. From the keys of
events it follows what begins a path and which transitions are counted as one.
-/

namespace StateWalk

/-- Objects that print alike do so as well if only the members of some names are left. -/
theorem Canonical.render_object_filter {ms ns : List (String × Canonical)} (once : (ms.map Prod.fst).Nodup)
    (once' : (ns.map Prod.fst).Nodup) (eq : (object ms).render = (object ns).render) (kept : String → Bool) :
    (object (ms.filter fun m => kept m.1)).render = (object (ns.filter fun m => kept m.1)).render := by
  have inOrder {ms : List (String × Canonical)} (once : (ms.map Prod.fst).Nodup) :
      (object (ms.filter fun m => kept m.1)).render =
        (object ((sortByName ms).filter fun m => kept m.1)).render :=
    render_object_of_perm ((sortByName_perm ms).symm.filter _) (once.sublist (List.filter_sublist.map _))
  have printed (ms : List (String × Canonical)) :
      (((sortByName ms).filter fun m => kept m.1).map fun m => (m.1, m.2.render)) =
        (sortByName (ms.map fun m => (m.1, m.2.render))).filter fun m => kept m.1 := by
    rw [sortByName_map, List.filter_map]
    rfl
  rw [inOrder once, inOrder once']
  refine render_object_congr ?_
  rw [printed, printed, members_of_render_eq eq]

/-- A visit by one key counts for another one exactly if the keys are equal. -/
theorem Coverage.counts_iff {σ κ : Type} [KeyType κ] (c : Coverage σ κ) (a b : String) (step : Step σ) :
    c.transitionCount b < (c.addTransition a step).transitionCount b ↔ a = b := by
  rw [transitionCount, transitionCount, addTransition, Tally.count_record]
  by_cases same : a = b <;> simp [same]

namespace Value

/-- A plain mapping has texts for keys. -/
theorem PlainData.exists_entries {es : Entries} (h : PlainData (.mapping es)) :
    ∃ named : List (String × Value), es = named.map (fun e => (.text e.1, e.2)) ∧
      (named.map Prod.fst).Nodup ∧ ∀ e ∈ named, PlainData e.2 := by
  generalize eq : Value.mapping es = v at h
  cases h with
  | @mapping named once plain => exact ⟨named, Value.mapping.inj eq, once, plain⟩
  | _ => cases eq

theorem textMapping_filter {es fs : List (String × Value)} (once : (es.map Prod.fst).Nodup)
    (once' : (fs.map Prod.fst).Nodup)
    (eq : (textMapping es).canonical.render = (textMapping fs).canonical.render) (kept : String → Bool) :
    (textMapping (es.filter fun e => kept e.1)).canonical.render =
      (textMapping (fs.filter fun e => kept e.1)).canonical.render := by
  have names (es : List (String × Value)) :
      (es.map fun e => (e.1, e.2.canonical)).map Prod.fst = es.map Prod.fst := by
    rw [List.map_map]
    rfl
  have left (es : List (String × Value)) : (textMapping (es.filter fun e => kept e.1)).canonical =
      .object ((es.map fun e => (e.1, e.2.canonical)).filter fun m => kept m.1) := by
    rw [canonical_textMapping, List.filter_map]
    rfl
  rw [canonical_textMapping, canonical_textMapping] at eq
  rw [left, left]
  exact Canonical.render_object_filter ((names es).symm ▸ once) ((names fs).symm ▸ once') eq kept

/-- Putting an entry for a text is putting it at the end and taking out the entry that was there. -/
theorem putText_perm_without {es : Entries} (once : TextsOnce es) {name : String}
    (plain : ∀ e ∈ es, e.1.text? = some name → e.1 = text name) (v : Value) :
    (putText es name v).Perm (es.without (text name) ++ [(text name, v)]) := by
  have put := putText_of_absent (absent_without es name) v
  by_cases found : ∃ e ∈ es, e.1.text? = some name
  · obtain ⟨⟨key, w⟩, mem, named⟩ := found
    obtain rfl : key = text name := plain _ mem named
    have last : putText (es.without (text name) ++ [(text name, w)]) name v =
        es.without (text name) ++ [(text name, v)] := by
      rw [putText_append_of_absent (absent_without es name)]
      simp [putText, text?]
    exact last ▸ putText_perm once (perm_without once mem) name v
  · rw [without_of_absent found] at put ⊢
    rw [put]

/-- A shuffled mapping is a mapping, and alike when a text gets an entry in both. -/
theorem Shuffle.alike_putText {v w : Value} (h : Shuffle v w) (name : String) (x : Value) {es : Entries}
    (eq : v = mapping es) :
    ∃ fs, w = mapping fs ∧ Alike (mapping (putText es name x)) (mapping (putText fs name x)) := by
  induction h generalizing es with
  | refl v => exact ⟨es, eq, .refl _⟩
  | trans _ _ ih ih' =>
    obtain ⟨fs, eq', first⟩ := ih eq
    obtain ⟨gs, eq'', second⟩ := ih' eq'
    exact ⟨gs, eq'', first.trans second⟩
  | entries once perm =>
    cases eq
    exact ⟨_, rfl, .entries_of_perm (once.putText name x) (putText_perm once perm name x)⟩
  | part gap h _ =>
    have replaced {e f : Value × Value} (same : AlikeEntries e f) (before after : Entries) :
        Alike (mapping (putText (before ++ e :: after) name x)) (mapping (putText (before ++ f :: after) name x)) :=
      .entries (forall₂_putText (forall₂_place (fun g => ⟨.refl g.1, .refl g.2⟩) same before after) name (.refl x))
    cases gap with
    | mappingKey before value after =>
      cases eq
      exact ⟨_, rfl, replaced ⟨h.alike, .refl value⟩ before after⟩
    | mappingValue before key after =>
      cases eq
      exact ⟨_, rfl, replaced ⟨.refl key, h.alike⟩ before after⟩
    | _ => cases eq
  | setItems | frozenSetItems | payload => cases eq

end Value

namespace Event

open Value

/-! ## Payloads by their names -/

/-- An event of this type with payload entries of these names. -/
def ofNames (type : String) (named : List (String × Value)) : Event :=
  ⟨.text type, named.map fun entry => (.text entry.1, entry.2)⟩

/-- Plain data under different names, none of which is that of the type. -/
structure PlainNames (named : List (String × Value)) : Prop where
  once : (named.map Prod.fst).Nodup
  untagged : typeName ∉ named.map Prod.fst
  plain : ∀ entry ∈ named, PlainData entry.2

namespace PlainNames

variable {type type' : String} {named named' : List (String × Value)} (h : PlainNames named)

include h

theorem entries_eq (type : String) :
    (ofNames type named).entries =
      (named ++ [(typeName, Value.text type)]).map fun entry => (Value.text entry.1, entry.2) := by
  have absent : ¬ ∃ entry ∈ (ofNames type named).payload, entry.1.text? = some typeName := by
    rintro ⟨_, mem, same⟩
    obtain ⟨entry, here, rfl⟩ := List.mem_map.1 mem
    exact h.untagged (List.mem_map.2 ⟨entry, here, Option.some.inj same⟩)
  rw [entries_of_absent absent, List.map_append]
  rfl

theorem once_concat (type : String) : ((named ++ [(typeName, Value.text type)]).map Prod.fst).Nodup := by
  rw [List.map_append, List.nodup_append']
  exact ⟨h.once, List.nodup_singleton _, List.disjoint_singleton.2 h.untagged⟩

theorem plainData (type : String) : PlainData (.mapping (ofNames type named).entries) := by
  rw [h.entries_eq type]
  refine .mapping (h.once_concat type) ?_
  exact List.forall_mem_append.2 ⟨h.plain, List.forall_mem_singleton.2 (.text type)⟩

theorem filter_concat (type : String) :
    (named ++ [(typeName, Value.text type)]).filter (fun entry => entry.1 != typeName) = named ∧
      (named ++ [(typeName, Value.text type)]).filter (fun entry => entry.1 == typeName) =
        [(typeName, Value.text type)] := by
  have other : ∀ entry ∈ named, entry.1 ≠ typeName :=
    fun entry mem same => h.untagged (List.mem_map.2 ⟨entry, mem, same⟩)
  constructor
  · rw [List.filter_append, List.filter_eq_self.2 (by simpa using other)]
    simp
  · rw [List.filter_append, List.filter_eq_nil_iff.2 (by simpa using other)]
    simp

/-- Events with one key have one type, and payloads that print alike. -/
theorem of_key_eq (h' : PlainNames named') (eq : (ofNames type named).key = (ofNames type' named').key) :
    type = type' ∧ Shuffle (textMapping named).asLists (textMapping named').asLists := by
  have alike : (textMapping (named ++ [(typeName, .text type)])).canonical.render =
      (textMapping (named' ++ [(typeName, .text type')])).canonical.render := by
    rw [Event.key, Event.key, key_of_hasKey (h.plainData type).hasKey,
      key_of_hasKey (h'.plainData type').hasKey, h.entries_eq, h'.entries_eq] at eq
    exact String.ofList_injective (Except.ok.inj eq)
  have left := textMapping_filter (h.once_concat type) (h'.once_concat type') alike
  have types := left fun name => name == typeName
  have payloads := left fun name => name != typeName
  rw [(h.filter_concat type).2, (h'.filter_concat type').2] at types
  rw [(h.filter_concat type).1, (h'.filter_concat type').1] at payloads
  have data : PlainData (textMapping named) := .mapping h.once h.plain
  refine ⟨?_, data.shuffle_of_render_eq (.mapping h'.once h'.plain) payloads⟩
  have values := values_of_render_eq types
  rw [Canonical.sortByName_eq_singleton.2 rfl, Canonical.sortByName_eq_singleton.2 rfl] at values
  cases values with
  | cons first _ => exact Canonical.renderText_injective first.2

end PlainNames

/-! ## Events with plain payloads -/

/-- The type is a text, and the payload is plain data without tuples. -/
structure PlainEvent (e : Event) : Prop where
  type : ∃ type, e.type = .text type
  payload : PlainData (.mapping e.payload)
  lists : (Value.mapping e.payload).asLists = .mapping e.payload

/-- The events are equal up to the order in which mappings list their entries. -/
structure Same (e f : Event) : Prop where
  type : e.type = f.type
  payload : Shuffle (.mapping e.payload) (.mapping f.payload)

/-- No payload entry has the name of the type. -/
def Untagged (e : Event) : Prop := ∀ entry ∈ e.payload, entry.1.text? ≠ some typeName

/-- The event without a payload entry of the type's name. -/
def untagged (e : Event) : Event := ⟨e.type, e.payload.without typeKey⟩

theorem untagged_untagged (e : Event) : Untagged e.untagged :=
  fun entry mem named => absent_without e.payload typeName ⟨entry, mem, named⟩

theorem untagged_eq {e : Event} (h : Untagged e) : e.untagged = e := by
  have rest : e.payload.without typeKey = e.payload :=
    without_of_absent fun ⟨entry, mem, named⟩ => h entry mem named
  rw [untagged, rest]

theorem asLists_mapping_iff {es : Entries} :
    (Value.mapping es).asLists = .mapping es ↔ ∀ e ∈ es, e.2.asLists = e.2 := by
  rw [asLists, entriesAsLists_eq_map, Value.mapping.injEq]
  constructor
  · intro eq e mem
    have same := List.map_inj_left.1 (eq.trans (List.map_id es).symm) e mem
    exact (Prod.ext_iff.1 same).2
  · intro each
    have same : ∀ e ∈ es, (e.1, e.2.asLists) = id e := fun e mem => Prod.ext rfl (each e mem)
    exact (List.map_congr_left same).trans (List.map_id es)

namespace PlainEvent

variable {e f : Event}

theorem exists_names (h : PlainEvent e) :
    ∃ type named, e = ofNames type named ∧ (named.map Prod.fst).Nodup ∧
      ∀ entry ∈ named, PlainData entry.2 := by
  obtain ⟨type, payload⟩ := e
  obtain ⟨type, rfl⟩ := h.type
  obtain ⟨named, rfl, once, plain⟩ := h.payload.exists_entries
  exact ⟨type, named, rfl, once, plain⟩

theorem exists_plainNames (h : PlainEvent e) (untagged : Untagged e) :
    ∃ type named, e = ofNames type named ∧ PlainNames named := by
  obtain ⟨type, named, rfl, once, plain⟩ := h.exists_names
  refine ⟨type, named, rfl, once, fun mem => ?_, plain⟩
  obtain ⟨entry, mem, same⟩ := List.mem_map.1 mem
  exact untagged (.text entry.1, entry.2) (List.mem_map.2 ⟨entry, mem, rfl⟩) (congrArg some same)

theorem untagged (h : PlainEvent e) : PlainEvent e.untagged where
  type := h.type
  payload := by
    obtain ⟨type, named, rfl, once, plain⟩ := h.exists_names
    have rest : Entries.without (ofNames type named).payload typeKey =
        (named.filter fun entry => !typeKey.sameKey (.text entry.1)).map
          fun entry => (.text entry.1, entry.2) := by
      rw [ofNames, Entries.without, List.filter_map]
      rfl
    rw [Event.untagged, rest]
    exact .mapping (once.sublist (List.filter_sublist.map _)) fun entry mem =>
      plain entry (List.mem_of_mem_filter mem)
  lists := asLists_mapping_iff.2 fun entry mem =>
    asLists_mapping_iff.1 h.lists entry (List.mem_of_mem_filter mem)

theorem hasKey_untagged (h : PlainEvent e) : (Value.mapping e.untagged.entries).hasKey = true := by
  obtain ⟨type, named, eq, plain⟩ := h.untagged.exists_plainNames (untagged_untagged e)
  rw [eq]
  exact (plain.plainData type).hasKey

/-- A payload entry of the type's name does not count, as the type takes its place. -/
theorem key_untagged (h : PlainEvent e) : e.untagged.key = e.key := by
  have keyed := h.hasKey_untagged
  obtain ⟨type, named, rfl, once, -⟩ := h.exists_names
  have texts : TextsOnce (ofNames type named).payload := textsOnce_textMapping once
  have plain : ∀ entry ∈ (ofNames type named).payload,
      entry.1.text? = some typeName → entry.1 = typeKey := by
    intro entry mem same
    obtain ⟨entry, -, rfl⟩ := List.mem_map.1 mem
    exact congrArg Value.text (Option.some.inj same)
  have put := putText_perm_without texts plain (Value.text type)
  rw [entries_of_absent (absent_without _ typeName)] at keyed
  rw [Event.key, entries_of_absent (absent_without _ typeName)]
  have alike := (Shuffle.entries (texts.putText typeName _) put).alike
  exact (alike.key (alike.hasKey.trans keyed)).symm

theorem exists_key (h : PlainEvent e) : ∃ k, e.key = .ok k :=
  ⟨_, h.key_untagged.symm.trans (key_of_hasKey h.hasKey_untagged)⟩

/-- Plain events that are the same have one key. -/
theorem key_eq_of_same (h : PlainEvent e) (same : Same e f) : e.key = f.key := by
  obtain ⟨type, payload⟩ := f
  obtain ⟨rfl, payloads⟩ := same
  obtain ⟨_, eq, alike⟩ := payloads.alike_putText typeName e.type rfl
  cases eq
  obtain ⟨k, keyed⟩ := h.exists_key
  exact keyed.trans ((alike.key_eq_ok_iff k).1 keyed).symm

theorem keys_agree_of_untagged (he : PlainEvent e) (hf : PlainEvent f) (left : Untagged e) (right : Untagged f) :
    e.key = f.key ↔ Same e f := by
  constructor
  · intro eq
    have lists := he.lists
    have lists' := hf.lists
    obtain ⟨type, named, rfl, plain⟩ := he.exists_plainNames left
    obtain ⟨type', named', rfl, plain'⟩ := hf.exists_plainNames right
    obtain ⟨types, payloads⟩ := plain.of_key_eq plain' eq
    refine ⟨congrArg Value.text types, ?_⟩
    rw [← lists, ← lists']
    exact payloads
  · exact he.key_eq_of_same

/-- The keys of two events are equal exactly if the events are, but for entries of the type's name. -/
theorem keys_agree_iff (he : PlainEvent e) (hf : PlainEvent f) : e.key = f.key ↔ Same e.untagged f.untagged := by
  rw [← he.key_untagged, ← hf.key_untagged]
  exact he.untagged.keys_agree_of_untagged hf.untagged (untagged_untagged e) (untagged_untagged f)

end PlainEvent

/-! ## Paths and transitions of plain events -/

/-- The first path begins the second: its events are the same ones, one after the other. -/
def SameBeginning {σ : Type} (p q : Path σ) : Prop :=
  ∃ common more, q.steps = common ++ more ∧
    List.Forall₂ (fun step step' => Same step.event.untagged step'.event.untagged) p.steps common

theorem sameBeginning_of_begins {σ : Type} {p q : Path σ} (plain : ∀ step ∈ p.steps, PlainEvent step.event)
    (plain' : ∀ step ∈ q.steps, PlainEvent step.event) (begins : Plan.Begins key p q) : SameBeginning p q := by
  obtain ⟨common, more, split, keyed⟩ := begins.exists_common
  rw [List.forall₂_iff_zip] at keyed
  refine ⟨common, more, split, List.forall₂_iff_zip.2 ⟨keyed.1, fun {step step'} mem => ?_⟩⟩
  obtain ⟨k, left, right⟩ := keyed.2 mem
  have inCommon : step' ∈ common ++ more := List.mem_append_left more (List.of_mem_zip mem).2
  have first := plain step (List.of_mem_zip mem).1
  have second := plain' step' (split ▸ inCommon)
  exact (first.keys_agree_iff second).1 (left.trans right.symm)

theorem PlainEvent.transitionKeys_agree_iff {σ γ ω : Type} {m : TestModel σ String γ ω}
    {settings : List (Model.Setting σ String γ ω)} {o : Model.Options σ String γ ω}
    (resolved : m.resolve settings = .ok o) {value : σ → Value}
    (known : TestModel.KnownByText value o.toOptions) {e f : Event} (he : PlainEvent e) (hf : PlainEvent f)
    {s t : σ} {k l : String} (keyed : (value s).key = .ok k) (keyed' : (value t).key = .ok l) :
    ∃ a b, m.transitionKey settings ⟨s, e⟩ = .ok a ∧ m.transitionKey settings ⟨t, f⟩ = .ok b ∧
      (a = b ↔ k = l ∧ Same e.untagged f.untagged) := by
  obtain ⟨i, left⟩ := he.exists_key
  obtain ⟨j, right⟩ := hf.exists_key
  refine ⟨Value.barred k i, Value.barred l j, ?_, ?_, ?_⟩
  · rw [TestModel.transitionKey_eq resolved]
    exact known.stepKey keyed left
  · rw [TestModel.transitionKey_eq resolved]
    exact known.stepKey keyed' right
  · rw [barred_inj keyed keyed', ← he.keys_agree_iff hf, left, right, Except.ok.injEq]

/-- **The key of a plain event tells the event, but for a payload entry of the type's name.** Every plain event
has a key, and two of them have the same one exactly if they are equal once such entries are left out and up to
the order in which mappings list their entries; where there are no such entries, exactly if they are equal up to
that order. So a path of plain events is dropped for another one only if it begins that one event by event, and
a step counts for another one exactly if their states have one key and their events are the same. -/
theorem plain_events_identified {e f : Event} (he : PlainEvent e) (hf : PlainEvent f) :
    (∃ k, e.key = .ok k) ∧ (e.key = f.key ↔ Same e.untagged f.untagged) ∧
    (Untagged e → Untagged f → (e.key = f.key ↔ Same e f)) ∧
    (∀ (σ : Type) (plans : List (Plan σ)),
      (∀ p ∈ plans.flatMap Plan.paths, ∀ step ∈ p.steps, PlainEvent step.event) →
      ∃ kept, Plan.maximalPaths plans key = .ok kept ∧
        kept.flatMap Plan.paths ⊆ plans.flatMap Plan.paths ∧
        ∀ p ∈ plans.flatMap Plan.paths, ∃ q ∈ kept.flatMap Plan.paths, SameBeginning p q) ∧
    ∀ (σ γ ω : Type) (m : TestModel σ String γ ω) (settings : List (Model.Setting σ String γ ω))
      (o : Model.Options σ String γ ω) (value : σ → Value) (s t : σ) (k l : String),
      m.resolve settings = .ok o → TestModel.KnownByText value o.toOptions →
      (value s).key = .ok k → (value t).key = .ok l →
      ∃ a b, m.transitionKey settings ⟨s, e⟩ = .ok a ∧ m.transitionKey settings ⟨t, f⟩ = .ok b ∧
        ∀ c : Coverage σ String, c.transitionCount b < (c.addTransition a ⟨s, e⟩).transitionCount b ↔
          k = l ∧ Same e.untagged f.untagged := by
  refine ⟨he.exists_key, he.keys_agree_iff hf, he.keys_agree_of_untagged hf, ?_, ?_⟩
  · intro σ plans plain
    have keyed : ∀ p ∈ plans.flatMap Plan.paths, ∃ ks, Plan.eventKeys key p = .ok ks :=
      fun p mem => Outcome.exists_mapM_eq_ok fun step here => (plain p mem step here).exists_key
    obtain ⟨kept, computed⟩ := Plan.exists_maximalPaths keyed
    obtain ⟨among, covered⟩ := Plan.maximalPaths_eq_ok computed
    refine ⟨kept, computed, among, fun p mem => ?_⟩
    obtain ⟨q, mem', begins⟩ := covered p mem
    exact ⟨q, mem', sameBeginning_of_begins (plain p mem) (plain q (among mem')) begins⟩
  · intro σ γ ω m settings o value s t k l resolved known keyed keyed'
    obtain ⟨a, b, left, right, same⟩ := he.transitionKeys_agree_iff resolved known hf keyed keyed'
    exact ⟨a, b, left, right, fun c => (c.counts_iff a b _).trans same⟩

theorem plainEvent_ofNames (type : String) {named : List (String × Value)} (once : (named.map Prod.fst).Nodup)
    (plain : ∀ entry ∈ named, PlainData entry.2) (lists : ∀ entry ∈ named, entry.2.asLists = entry.2) :
    PlainEvent (ofNames type named) where
  type := ⟨type, rfl⟩
  payload := .mapping once plain
  lists := by
    refine asLists_mapping_iff.2 fun entry mem => ?_
    obtain ⟨e, here, rfl⟩ := List.mem_map.1 mem
    exact lists e here

/-! ## Renamings -/

/-- Something is renamed, and these entries say what and how. -/
def relabel (named : List (String × String)) : Event :=
  ofNames "RENAME" (named.map fun entry => (entry.1, .text entry.2))

theorem plainEvent_relabel (named : List (String × String)) (once : (named.map Prod.fst).Nodup) :
    PlainEvent (relabel named) := by
  refine plainEvent_ofNames _ ?_ ?_ ?_
  · rwa [List.map_map]
  · exact List.forall_mem_map.2 fun entry _ => .text entry.2
  · exact List.forall_mem_map.2 fun _ _ => rfl

theorem untagged_relabel (named : List (String × String)) (other : typeName ∉ named.map Prod.fst) :
    Untagged (relabel named) := by
  intro entry mem same
  obtain ⟨_, there, rfl⟩ := List.mem_map.1 mem
  obtain ⟨named, here, rfl⟩ := List.mem_map.1 there
  exact other (List.mem_map.2 ⟨named, here, Option.some.inj same⟩)

/-- Different new names make different renamings. -/
theorem not_same_relabel : ¬ Same (relabel [("new", "b")]) (relabel [("new", "c")]) := fun same =>
  absurd same.payload.alike.canonicalText (by decide +kernel)

/-- A path of one renaming. -/
def relabelPath (named : List (String × String)) : Path Value :=
  ⟨.text "renamed", [⟨.text "noon", relabel named⟩], 1, "via RENAME"⟩

/-- The order of the entries makes no difference to a renaming, and the new name does. The paths of such
renamings can be compared, and a step by one of them does not count for the same step by another one. -/
theorem renamings_identified :
    PlainEvent (relabel [("old", "a"), ("new", "b")]) ∧
      (relabel [("old", "a"), ("new", "b")]).key = (relabel [("new", "b"), ("old", "a")]).key ∧
      PlainEvent (relabel [("new", "b")]) ∧ (relabel [("new", "b")]).key ≠ (relabel [("new", "c")]).key ∧
      (∃ kept, Plan.maximalPaths
        [⟨.text "renamed", [relabelPath [("new", "b")], relabelPath [("new", "c")]], ""⟩] key = .ok kept) ∧
      ∃ a b, TestModel.forecast.transitionKey [] ⟨.text "noon", relabel [("new", "b")]⟩ = .ok a ∧
        TestModel.forecast.transitionKey [] ⟨.text "noon", relabel [("new", "c")]⟩ = .ok b ∧
        ∀ c : Coverage Value String,
          (c.addTransition a ⟨.text "noon", relabel [("new", "b")]⟩).transitionCount b ≤
            c.transitionCount b := by
  have both := plainEvent_relabel [("old", "a"), ("new", "b")] (by decide)
  have both' := plainEvent_relabel [("new", "b"), ("old", "a")] (by decide)
  have one (new : String) : PlainEvent (relabel [("new", new)]) :=
    plainEvent_relabel _ (List.nodup_singleton "new")
  have other : typeName ∉ ["new"] := by decide
  have free (new : String) : Untagged (relabel [("new", new)]) := untagged_relabel _ other
  obtain ⟨-, -, same, -, -⟩ := plain_events_identified both both'
  obtain ⟨-, -, differ, paths, steps⟩ := plain_events_identified (one "b") (one "c")
  refine ⟨both, ?_, one "b", fun eq => ?_, ?_, ?_⟩
  · exact (same (untagged_relabel _ (by decide)) (untagged_relabel _ (by decide))).2
      ⟨rfl, Shuffle.textMapping_perm (by decide) (.swap ..)⟩
  · exact not_same_relabel ((differ (free "b") (free "c")).1 eq)
  · have plain (new : String) : ∀ step ∈ (relabelPath [("new", new)]).steps, PlainEvent step.event :=
      List.forall_mem_singleton.2 (one new)
    obtain ⟨kept, computed, -⟩ := paths Value
      [⟨.text "renamed", [relabelPath [("new", "b")], relabelPath [("new", "c")]], ""⟩]
      (List.forall_mem_cons.2 ⟨plain "b", List.forall_mem_singleton.2 (plain "c")⟩)
    exact ⟨kept, computed⟩
  · obtain ⟨a, b, left, right, counts⟩ := steps Value Unit Unit TestModel.forecast [] _ id (.text "noon")
      (.text "noon") _ _ rfl (TestModel.knownByText_ofKey id) rfl rfl
    refine ⟨a, b, left, right, fun c => Nat.le_of_not_lt fun counted => ?_⟩
    have alike := ((counts c).1 counted).2
    rw [untagged_eq (free "b"), untagged_eq (free "c")] at alike
    exact not_same_relabel alike

/-- What is renamed makes no difference to the key of a renaming if the payload calls it the type. -/
theorem renaming_key_ignores_folder :
    PlainEvent (relabel [("type", "folder")]) ∧ PlainEvent (relabel []) ∧
      (relabel [("type", "folder")]).key = (relabel []).key ∧
      ¬ Same (relabel [("type", "folder")]) (relabel []) :=
  ⟨plainEvent_relabel _ (by decide), plainEvent_relabel _ (by decide), rfl, fun same =>
    absurd same.payload.alike.canonicalText (by decide +kernel)⟩

end Event

end StateWalk
