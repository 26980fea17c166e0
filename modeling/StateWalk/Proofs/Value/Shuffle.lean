import StateWalk.Event
import StateWalk.Proofs.Canonical.Order

/-!
# Shuffles

A value is a shuffle of another one if it becomes that by putting the items of sets and the entries of
mappings and payloads in another order, at any depth (`Shuffle`). A depth is reached part by part: a `Gap` is
a value with one part left out, and what fills it may be shuffled. Validated records stay as they are.

Shuffles are `Alike`: they print as the same text, and nothing else that a key depends on tells them apart
either. This is proved for each kind of value that has parts, of which any may be replaced by something alike;
`Shuffle.alike` puts it together.
-/

namespace StateWalk.Value

/-- No text is the key of two entries. -/
def TextsOnce (es : Entries) : Prop := (es.filterMap fun e => e.1.text?).Nodup

theorem textsOnce_textMapping {es : List (String × Value)} (once : (es.map Prod.fst).Nodup) :
    TextsOnce (es.map fun e => (text e.1, e.2)) := by
  have texts : (es.map fun e => (text e.1, e.2)).filterMap (fun e => e.1.text?) = es.map Prod.fst := by
    rw [List.filterMap_map, ← List.filterMap_eq_map]
    rfl
  rwa [TextsOnce, texts]

/-- A value with one part left out. -/
inductive Gap where
  | member (naming : Naming)
  | list (before after : List Value)
  | tuple (before after : List Value)
  | set (before after : List Value)
  | frozenSet (before after : List Value)
  | mappingKey (before : Entries) (value : Value) (after : Entries)
  | mappingValue (before : Entries) (key : Value) (after : Entries)
  | recordField (className : String) (before : List (String × Value)) (name : String)
    (after : List (String × Value)) (uncompared : List String)
  | eventType (payload : Entries)
  | payloadKey (type : Value) (before : Entries) (value : Value) (after : Entries)
  | payloadValue (type : Value) (before : Entries) (key : Value) (after : Entries)
  | stepState (event : Value)
  | stepEvent (state : Value)
  | snapshotValue (context event : Value)
  | snapshotContext (value event : Value)
  | snapshotEvent (value context : Value)

/-- The value with this part. -/
def Gap.fill : Gap → Value → Value
  | member naming, v => .member naming v
  | list before after, v => .list (before ++ v :: after)
  | tuple before after, v => .tuple (before ++ v :: after)
  | set before after, v => .set (before ++ v :: after)
  | frozenSet before after, v => .frozenSet (before ++ v :: after)
  | mappingKey before value after, v => .mapping (before ++ (v, value) :: after)
  | mappingValue before key after, v => .mapping (before ++ (key, v) :: after)
  | recordField className before name after uncompared, v =>
    .record className (before ++ (name, v) :: after) uncompared
  | eventType payload, v => .event v payload
  | payloadKey type before value after, v => .event type (before ++ (v, value) :: after)
  | payloadValue type before key after, v => .event type (before ++ (key, v) :: after)
  | stepState e, v => .step v e
  | stepEvent s, v => .step s v
  | snapshotValue c e, v => .snapshot v c e
  | snapshotContext value e, v => .snapshot value v e
  | snapshotEvent value c, v => .snapshot value c v

/-- The second value is the first one with the items of sets and the entries of mappings and of payloads in
another order, at any depth. -/
inductive Shuffle : Value → Value → Prop where
  | refl (v : Value) : Shuffle v v
  | trans {u v w : Value} : Shuffle u v → Shuffle v w → Shuffle u w
  | part (gap : Gap) {v w : Value} : Shuffle v w → Shuffle (gap.fill v) (gap.fill w)
  | setItems {vs ws : List Value} : vs.Perm ws → Shuffle (set vs) (set ws)
  | frozenSetItems {vs ws : List Value} : vs.Perm ws → Shuffle (frozenSet vs) (frozenSet ws)
  | entries {es fs : Entries} : TextsOnce es → es.Perm fs → Shuffle (mapping es) (mapping fs)
  | payload {type : Value} {p q : Entries} : TextsOnce p → p.Perm q → Shuffle (event type p) (event type q)

namespace Shuffle

theorem symm {v w : Value} (h : Shuffle v w) : Shuffle w v := by
  induction h with
  | refl v => exact .refl v
  | trans _ _ ih ih' => exact ih'.trans ih
  | part gap _ ih => exact .part gap ih
  | setItems perm => exact .setItems perm.symm
  | frozenSetItems perm => exact .frozenSetItems perm.symm
  | entries once perm => exact .entries ((perm.filterMap _).nodup_iff.1 once) perm.symm
  | payload once perm => exact .payload ((perm.filterMap _).nodup_iff.1 once) perm.symm

end Shuffle

/-! ## Values with the same key -/

/-- The canonical form of a mapping with these entries. -/
def entriesForm (es : Entries) : Canonical :=
  mappingForm (es.all fun e => e.1.isPlainText) (canonicalEntries es)

/-- The two values have the same key, and they are the same key of a mapping. -/
structure Alike (v w : Value) : Prop where
  render : v.canonical.render = w.canonical.render
  name : memberName v.canonical = memberName w.canonical
  hasKey : v.hasKey = w.hasKey
  text : v.text? = w.text?
  plain : v.isPlainText = w.isPlainText

namespace Alike

theorem refl (v : Value) : Alike v v := ⟨rfl, rfl, rfl, rfl, rfl⟩

theorem trans {u v w : Value} (h : Alike u v) (h' : Alike v w) : Alike u w where
  render := h.render.trans h'.render
  name := h.name.trans h'.name
  hasKey := h.hasKey.trans h'.hasKey
  text := h.text.trans h'.text
  plain := h.plain.trans h'.plain

theorem canonicalText {v w : Value} (h : Alike v w) : v.canonicalText = w.canonicalText :=
  congrArg String.ofList h.render

/-- The two have one key or none has one; where dumps fail, they need not fail in the same order. -/
theorem key_eq_ok_iff {v w : Value} (h : Alike v w) (k : String) : v.key = .ok k ↔ w.key = .ok k := by
  rw [Value.key_eq_ok_iff, Value.key_eq_ok_iff, h.hasKey, h.canonicalText]

theorem key {v w : Value} (h : Alike v w) (keyed : v.hasKey = true) : v.key = w.key := by
  rw [key_of_hasKey keyed, key_of_hasKey (h.hasKey ▸ keyed), h.canonicalText]

end Alike

/-- The two entries have keys and values that are alike. -/
structure AlikeEntries (e f : Value × Value) : Prop where
  key : Alike e.1 f.1
  value : Alike e.2 f.2

/-- The two fields have one name, and values that are alike if they are compared. -/
structure AlikeFields (uncompared : List String) (f g : String × Value) : Prop where
  name : f.1 = g.1
  value : uncompared.contains f.1 = false → Alike f.2 g.2

/-- What aligned lists say of each pair of items alike, they say alike of all. -/
theorem all_eq_of_forall₂ {α : Type} {R : α → α → Prop} {p : α → Bool} {as bs : List α}
    (h : List.Forall₂ R as bs) (same : ∀ a b, R a b → p a = p b) : as.all p = bs.all p := by
  induction h with
  | nil => rfl
  | cons first _ ih => rw [List.all_cons, List.all_cons, same _ _ first, ih]

theorem map_eq_of_forall₂ {α β : Type} {R : α → α → Prop} {f : α → β} {as bs : List α}
    (h : List.Forall₂ R as bs) (same : ∀ a b, R a b → f a = f b) : as.map f = bs.map f := by
  induction h with
  | nil => rfl
  | cons first _ ih => rw [List.map_cons, List.map_cons, same _ _ first, ih]

/-- Only one place differs. -/
theorem forall₂_place {α : Type} {R : α → α → Prop} (refl : ∀ a, R a a) {a b : α} (h : R a b)
    (before after : List α) : List.Forall₂ R (before ++ a :: after) (before ++ b :: after) :=
  List.rel_append (List.forall₂_same.2 fun x _ => refl x)
    (.cons h (List.forall₂_same.2 fun x _ => refl x))

theorem memberName_entriesForm (es : Entries) : memberName (entriesForm es) = "" := by
  rw [entriesForm, mappingForm]
  split <;> rfl

/-- The names of the members that a mapping becomes are the texts that are its keys. -/
theorem names_of_plain {es : Entries} (plain : es.all (fun e => e.1.isPlainText) = true) :
    es.map (fun e => memberName e.1.canonical) = es.filterMap fun e => e.1.text? := by
  induction es with
  | nil => rfl
  | cons e es ih =>
    obtain ⟨k, v⟩ := e
    rw [List.all_cons, Bool.and_eq_true] at plain
    cases k <;> cases plain.1
    rw [List.map_cons, ih plain.2]
    rfl

/-- A mapping that lists its entries prints alike if its entries do, in whatever order. -/
theorem render_pairs_of_perm {forms forms' : List (Canonical × Canonical)}
    (perm : (forms.map fun e => (Canonical.array [e.1, e.2]).render).Perm
      (forms'.map fun e => (Canonical.array [e.1, e.2]).render)) :
    (mappingForm false forms).render = (mappingForm false forms').render := by
  have pairs : ((forms.map fun e => Canonical.array [e.1, e.2]).map Canonical.render).Perm
      ((forms'.map fun e => Canonical.array [e.1, e.2]).map Canonical.render) := by
    rwa [List.map_map, List.map_map]
  have listed := Canonical.render_array_congr (Canonical.render_sortByText_of_perm pairs)
  exact Canonical.render_object_congr (congrArg (fun text => [(mappingTag, text)]) listed)

theorem render_entriesForm_of_perm {es fs : Entries} (once : TextsOnce es) (perm : es.Perm fs) :
    (entriesForm es).render = (entriesForm fs).render := by
  have forms : (canonicalEntries es).Perm (canonicalEntries fs) := by
    rw [canonicalEntries_eq_map, canonicalEntries_eq_map]
    exact perm.map _
  rw [entriesForm, entriesForm, ← perm.all_eq]
  cases plain : es.all fun e => e.1.isPlainText with
  | true =>
    refine Canonical.render_object_of_perm (forms.map _) ?_
    rw [canonicalEntries_eq_map, List.map_map, List.map_map]
    exact (names_of_plain plain).symm ▸ once
  | false => exact render_pairs_of_perm (forms.map _)

theorem render_entriesForm_of_alike {es fs : Entries} (h : List.Forall₂ AlikeEntries es fs) :
    (entriesForm es).render = (entriesForm fs).render := by
  rw [entriesForm, entriesForm, all_eq_of_forall₂ h fun e f same => same.key.plain, canonicalEntries_eq_map,
    canonicalEntries_eq_map]
  cases fs.all fun e => e.1.isPlainText with
  | true =>
    refine Canonical.render_object_congr ?_
    rw [List.map_map, List.map_map, List.map_map, List.map_map]
    exact map_eq_of_forall₂ h fun e f same => Prod.ext same.key.name same.value.render
  | false =>
    refine render_pairs_of_perm (.of_eq ?_)
    rw [List.map_map, List.map_map]
    refine map_eq_of_forall₂ h fun e f same => Canonical.render_array_congr ?_
    rw [List.map_cons, List.map_singleton, same.key.render, same.value.render]
    rfl

/-! ## Shuffles have the same key -/

namespace Alike

section

variable {vs ws : List Value}

theorem list (h : List.Forall₂ Alike vs ws) : Alike (list vs) (list ws) where
  render := by
    refine Canonical.render_array_congr ?_
    rw [canonicalAll_eq_map, canonicalAll_eq_map, List.map_map, List.map_map]
    exact map_eq_of_forall₂ h fun _ _ same => same.render
  name := rfl
  hasKey := by
    rw [hasKey_list, hasKey_list]
    exact all_eq_of_forall₂ h fun _ _ same => same.hasKey
  text := rfl
  plain := rfl

theorem tuple (h : List.Forall₂ Alike vs ws) : Alike (tuple vs) (tuple ws) :=
  ⟨(Alike.list h).render, rfl, (Alike.list h).hasKey, rfl, rfl⟩

/-- Items that are alike, in whatever order. -/
theorem set {us : List Value} (h : List.Forall₂ Alike vs us) (perm : us.Perm ws) : Alike (set vs) (set ws) where
  render := by
    have forms : vs.map (Canonical.render ∘ canonical) = us.map (Canonical.render ∘ canonical) :=
      map_eq_of_forall₂ h fun _ _ same => same.render
    refine Canonical.render_array_congr (Canonical.render_sortByText_of_perm ?_)
    rw [canonicalAll_eq_map, canonicalAll_eq_map, List.map_map, List.map_map, forms]
    exact perm.map _
  name := rfl
  hasKey := by
    rw [hasKey_set, hasKey_set, ← perm.all_eq]
    exact all_eq_of_forall₂ h fun _ _ same => same.hasKey
  text := rfl
  plain := rfl

theorem frozenSet {us : List Value} (h : List.Forall₂ Alike vs us) (perm : us.Perm ws) :
    Alike (frozenSet vs) (frozenSet ws) :=
  ⟨(Alike.set h perm).render, rfl, (Alike.set h perm).hasKey, rfl, rfl⟩

end

section

variable {es fs : Entries}

theorem entries_of_perm (once : TextsOnce es) (perm : es.Perm fs) : Alike (mapping es) (mapping fs) where
  render := render_entriesForm_of_perm once perm
  name := (memberName_entriesForm es).trans (memberName_entriesForm fs).symm
  hasKey := by rw [hasKey_mapping, hasKey_mapping, perm.all_eq]
  text := rfl
  plain := rfl

theorem entries (h : List.Forall₂ AlikeEntries es fs) : Alike (mapping es) (mapping fs) where
  render := render_entriesForm_of_alike h
  name := (memberName_entriesForm es).trans (memberName_entriesForm fs).symm
  hasKey := by
    rw [hasKey_mapping, hasKey_mapping]
    exact all_eq_of_forall₂ h fun e f same => by rw [same.key.hasKey, same.value.hasKey]
  text := rfl
  plain := rfl

end

theorem record {className : String} {fs gs : List (String × Value)} {uncompared : List String}
    (h : List.Forall₂ (AlikeFields uncompared) fs gs) :
    Alike (record className fs uncompared) (record className gs uncompared) where
  render := by
    refine Canonical.render_object_congr ?_
    rw [canonicalFields_eq_map, canonicalFields_eq_map]
    induction h with
    | nil => rfl
    | @cons f g _ _ first _ ih =>
      simp only [List.map_cons, List.filter_cons, first.name]
      cases compared : uncompared.contains g.1 with
      | true => simpa using ih
      | false =>
        have same := (first.value (first.name ▸ compared)).render
        simpa [same] using ih
  name := rfl
  hasKey := by
    rw [hasKey_record, hasKey_record]
    refine all_eq_of_forall₂ h fun f g same => ?_
    rw [← same.name]
    cases compared : uncompared.contains f.1 with
    | true => rfl
    | false => rw [(same.value compared).hasKey]
  text := rfl
  plain := rfl

theorem member {v w : Value} (h : Alike v w) (n n' : Naming) : Alike (member n v) (member n' w) :=
  ⟨h.render, h.name, h.hasKey, rfl, rfl⟩

/-- An event counts by its type and by its payload as a mapping. -/
theorem event {type type' : Value} {p q : Entries} (types : Alike type type')
    (payloads : Alike (mapping p) (mapping q)) : Alike (event type p) (event type' q) where
  render := by
    refine Canonical.render_object_congr ?_
    have entries : (entriesForm p).render = (entriesForm q).render := payloads.render
    simp only [entriesForm] at entries
    simp [types.render, entries]
  name := rfl
  hasKey := by rw [hasKey_event, hasKey_event, types.hasKey, payloads.hasKey]
  text := rfl
  plain := rfl

theorem step {s s' e e' : Value} (states : Alike s s') (events : Alike e e') :
    Alike (step s e) (step s' e') where
  render := Canonical.render_object_congr (by simp [states.render, events.render])
  name := rfl
  hasKey := by rw [hasKey_step, hasKey_step, states.hasKey, events.hasKey]
  text := rfl
  plain := rfl

/-- The event of a snapshot does not count. -/
theorem snapshot {v v' c c' : Value} (values : Alike v v') (contexts : Alike c c') (e e' : Value) :
    Alike (snapshot v c e) (snapshot v' c' e') where
  render := Canonical.render_object_congr (by simp [values.render, contexts.render])
  name := rfl
  hasKey := by rw [hasKey_snapshot, hasKey_snapshot, values.hasKey, contexts.hasKey]
  text := rfl
  plain := rfl

theorem item {v w : Value} (h : Alike v w) (before after : List Value) :
    List.Forall₂ Alike (before ++ v :: after) (before ++ w :: after) := forall₂_place Alike.refl h before after

theorem entry {k k' v v' : Value} (keys : Alike k k') (values : Alike v v') (before after : Entries) :
    Alike (mapping (before ++ (k, v) :: after)) (mapping (before ++ (k', v') :: after)) :=
  .entries (forall₂_place (fun e => ⟨.refl e.1, .refl e.2⟩) ⟨keys, values⟩ before after)

/-- A part of a value counts by its own key. -/
theorem part (gap : Gap) {v w : Value} (h : Alike v w) : Alike (gap.fill v) (gap.fill w) := by
  cases gap with
  | member naming => exact h.member naming naming
  | list before after => exact .list (h.item before after)
  | tuple before after => exact .tuple (h.item before after)
  | set before after => exact .set (h.item before after) (.refl _)
  | frozenSet before after => exact .frozenSet (h.item before after) (.refl _)
  | mappingKey before value after => exact h.entry (.refl value) before after
  | mappingValue before key after => exact (Alike.refl key).entry h before after
  | recordField className before name after uncompared =>
    exact .record (forall₂_place (fun f => ⟨rfl, fun _ => .refl f.2⟩) ⟨rfl, fun _ => h⟩ before after)
  | eventType payload => exact h.event (.refl _)
  | payloadKey type before value after => exact (Alike.refl type).event (h.entry (.refl value) before after)
  | payloadValue type before key after =>
    exact (Alike.refl type).event ((Alike.refl key).entry h before after)
  | stepState e => exact h.step (.refl e)
  | stepEvent s => exact (Alike.refl s).step h
  | snapshotValue c e => exact h.snapshot (.refl c) e e
  | snapshotContext v e => exact (Alike.refl v).snapshot h e e
  | snapshotEvent v c => exact (Alike.refl v).snapshot (.refl c) _ _

end Alike

theorem Shuffle.alike {v w : Value} (h : Shuffle v w) : Alike v w := by
  induction h with
  | refl v => exact .refl v
  | trans _ _ ih ih' => exact ih.trans ih'
  | part gap _ ih => exact .part gap ih
  | setItems perm => exact .set (List.forall₂_same.2 fun v _ => .refl v) perm
  | frozenSetItems perm => exact .frozenSet (List.forall₂_same.2 fun v _ => .refl v) perm
  | entries once perm => exact .entries_of_perm once perm
  | payload once perm => exact .event (.refl _) (.entries_of_perm once perm)

end StateWalk.Value
