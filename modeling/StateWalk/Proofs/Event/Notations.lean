import StateWalk.Proofs.Value.Order

/-!
# Notations of events

An event is noted as its bare type, as a mapping with an entry for the type, or as the event itself. The three
are interpreted apart from each other, and still they have one identity (`notations_share_identity`): reading
takes the entry of the type out of a mapping and the key of the event puts it back at another place, which is a
shuffle of the mapping (`perm_without`), also where its keys are not all texts.
-/

namespace StateWalk

namespace Value

/-! ## The entry of a text -/

theorem sameKey_text_iff {name : String} {k : Value} : (text name).sameKey k = true ↔ k.text? = some name := by
  cases k with
  | text s | textMember _ s =>
    change (name == s) = true ↔ some s = some name
    rw [beq_iff_eq, Option.some.injEq, eq_comm]
  | _ => exact iff_of_false Bool.false_ne_true (Option.some_ne_none name).symm

theorem TextsOnce.absent {e : Value × Value} {es : Entries} (h : TextsOnce (e :: es)) {name : String}
    (named : e.1.text? = some name) : ¬ ∃ f ∈ es, f.1.text? = some name := by
  intro found
  rw [TextsOnce, List.filterMap_cons, named] at h
  exact (List.nodup_cons.1 h).1 (List.mem_filterMap.2 found)

/-- The entry of a text is the only one. -/
theorem TextsOnce.eq_of_text {e f : Value × Value} {es : Entries} (h : TextsOnce es) (he : e ∈ es) (hf : f ∈ es)
    {name : String} (named : e.1.text? = some name) (named' : f.1.text? = some name) : e = f := by
  induction es with
  | nil => cases he
  | cons first es ih =>
    obtain rfl | later := List.mem_cons.1 he
    · obtain rfl | later' := List.mem_cons.1 hf
      · rfl
      · exact absurd ⟨f, later', named'⟩ (h.absent named)
    · obtain rfl | later' := List.mem_cons.1 hf
      · exact absurd ⟨e, later, named⟩ (h.absent named')
      · exact ih h.of_cons later later'

/-- What is filtered out gives nothing, so the first to give something stays the first. -/
theorem findSome?_filter_of_eq_none {α β : Type} {f : α → Option β} {p : α → Bool} {as : List α}
    (h : ∀ a ∈ as, p a = false → f a = none) : (as.filter p).findSome? f = as.findSome? f := by
  induction as with
  | nil => rfl
  | cons a as ih =>
    obtain ⟨head, rest⟩ := List.forall_mem_cons.1 h
    cases kept : p a with
    | true => rw [List.filter_cons_of_pos kept, List.findSome?_cons, List.findSome?_cons, ih rest]
    | false =>
      rw [List.filter_cons_of_neg (by simp [kept]), List.findSome?_cons, head kept]
      exact ih rest

theorem absent_without (es : Entries) (name : String) :
    ¬ ∃ e ∈ es.without (text name), e.1.text? = some name := by
  rintro ⟨e, mem, named⟩
  have other := (List.mem_filter.1 mem).2
  rw [sameKey_text_iff.2 named] at other
  cases other

theorem without_of_absent {es : Entries} {name : String} (absent : ¬ ∃ e ∈ es, e.1.text? = some name) :
    es.without (text name) = es := by
  refine List.filter_eq_self.2 fun e mem => ?_
  have other : (text name).sameKey e.1 = false :=
    Bool.eq_false_iff.2 fun same => absent ⟨e, mem, sameKey_text_iff.1 same⟩
  rw [other]
  rfl

variable {es : Entries} {name : String} {v : Value}

theorem find?_of_mem (once : TextsOnce es) (mem : (text name, v) ∈ es) : es.find? (text name) = some v := by
  induction es with
  | nil => cases mem
  | cons e es ih =>
    obtain rfl | later := List.mem_cons.1 mem
    · simp [Entries.find?, sameKey_text_iff, text?]
    · have other : (text name).sameKey e.1 = false :=
        Bool.eq_false_iff.2 fun same => once.absent (sameKey_text_iff.1 same) ⟨_, later, rfl⟩
      rw [← ih once.of_cons later]
      simp [Entries.find?, other]

/-- Taking an entry out and putting it at the end is a permutation. -/
theorem perm_without (once : TextsOnce es) (mem : (text name, v) ∈ es) :
    es.Perm (es.without (text name) ++ [(text name, v)]) := by
  induction es with
  | nil => cases mem
  | cons e es ih =>
    obtain rfl | later := List.mem_cons.1 mem
    · have rest : Entries.without ((text name, v) :: es) (text name) = es := by
        rw [Entries.without, List.filter_cons_of_neg (by simp [sameKey_text_iff, text?])]
        exact without_of_absent (once.absent rfl)
      rw [rest]
      exact (List.perm_append_singleton _ es).symm
    · have other : (text name).sameKey e.1 = false :=
        Bool.eq_false_iff.2 fun same => once.absent (sameKey_text_iff.1 same) ⟨_, later, rfl⟩
      rw [Entries.without, List.filter_cons_of_pos (by simp [other])]
      exact (ih once.of_cons later).cons e

end Value

namespace Event

open Value

/-! ## One identity -/

/-- The entries of an event whose payload has none of the type's name. -/
theorem entries_of_absent {e : Event} (absent : ¬ ∃ entry ∈ e.payload, entry.1.text? = some typeName) :
    e.entries = e.payload ++ [(typeKey, e.type)] :=
  putText_of_absent absent e.type

theorem keyOf_toValue (e : Event) : keyOf e.toValue = e.key :=
  HasParts.keyOf (⟨rfl, rfl⟩ : HasParts e.toValue e.type e.payload)

/-- An entry without a failure can be taken out and put at the end: the same failure stays the first. -/
theorem failure?_without {es : Entries} {type : Value} (keyed : type.hasKey = true) (once : TextsOnce es)
    (mem : (typeKey, type) ∈ es) :
    (mapping (es.without typeKey ++ [(typeKey, type)])).failure? = (mapping es).failure? := by
  have none : type.failure? = none := Option.isNone_iff_eq_none.1 keyed
  have others : (es.without typeKey).findSome? (fun e => e.1.failure?.or e.2.failure?) =
      es.findSome? fun e => e.1.failure?.or e.2.failure? := by
    refine findSome?_filter_of_eq_none fun e he dropped => ?_
    have named : e.1.text? = some typeName := sameKey_text_iff.1 (by simpa [typeKey] using dropped)
    rw [once.eq_of_text he mem named rfl]
    exact none
  change failureAmongEntries? _ = failureAmongEntries? _
  rw [failureAmongEntries?_eq_findSome?, failureAmongEntries?_eq_findSome?, List.findSome?_append, others,
    List.findSome?_singleton, none]
  exact Option.or_none

section

variable {es : Entries} {type : Value}

/-- The type of an event and the rest of its mapping have the key that the mapping has. -/
theorem keysAgree_without (once : TextsOnce es) (mem : (typeKey, type) ∈ es) :
    KeysAgree (mapping es).key (key ⟨type, es.without typeKey⟩) := by
  rw [key, entries_of_absent (absent_without es typeName)]
  exact (Shuffle.entries once (perm_without once mem)).alike.key_eq_ok_iff

theorem key_without (keyed : type.hasKey = true) (once : TextsOnce es) (mem : (typeKey, type) ∈ es) :
    (mapping es).key = key ⟨type, es.without typeKey⟩ := by
  have alike := (Shuffle.entries once (perm_without once mem)).alike
  rw [key, entries_of_absent (absent_without es typeName), Value.key, Value.key,
    failure?_without keyed once mem, alike.canonicalText]
  rfl

end

theorem keyAfter_eq {x : Value} (given : x ≠ .null) (s : Value) :
    s.keyAfter x = (do let key ← s.key; return s!"{key} | {← shownTagOf x}") := by
  cases x with
  | null => exact absurd rfl given
  | _ => rfl

/-- A notation of an event of this type: the bare type, if it is a text, or a mapping with an entry for it. The
other entries of the mapping are any, but no text is the key of two entries. -/
inductive IsNotation : Value → Value → Prop where
  | bare (type : String) : IsNotation (.text type) (.text type)
  | mapping {es : Entries} {type : Value} : TextsOnce es → (typeKey, type) ∈ es →
      IsNotation (.mapping es) type

/-- The value has the key of the event and its type, also behind the key of a state. -/
structure SharesIdentity (x : Value) (e : Event) : Prop where
  key : KeysAgree (keyOf x) (keyOf e.toValue)
  /-- Neither has a key for the same reason, unless it is the type that has none: a mapping may list it before what
  has none either, and an event lists it last. -/
  outcome : e.type.hasKey = true → keyOf x = keyOf e.toValue
  tag : tagOf x = tagOf e.toValue
  keyAfter : ∀ s : Value, s.keyAfter x = s.keyAfter e.toValue

theorem IsNotation.ne_null {x type : Value} (h : IsNotation x type) : x ≠ .null := by
  rintro rfl
  cases h

/-- A notation is read as an event of its type. -/
theorem IsNotation.exists_event {x type : Value} (h : IsNotation x type) :
    ∃ e, ofValue x = .ok e ∧ e.type = type ∧ SharesIdentity x e := by
  have behind {e : Event} (shown : shownTagOf x = .ok e.label) (s : Value) :
      s.keyAfter x = s.keyAfter e.toValue := by
    rw [keyAfter_eq h.ne_null, shown]
    rfl
  cases h with
  | bare type => exact ⟨ofType type, rfl, rfl, fun _ => .rfl, fun _ => rfl, rfl, behind rfl⟩
  | @mapping es type once mem =>
    have found : es.find? typeKey = some type := find?_of_mem once mem
    have tag : tagOf (.mapping es) = .ok type.label := by rw [tagOf, found]
    refine ⟨⟨type, es.without typeKey⟩, by rw [ofValue, found], rfl, ?_, ?_, tag, behind tag⟩
    · rw [keyOf_toValue]
      exact keysAgree_without once mem
    · intro keyed
      rw [keyOf_toValue]
      exact key_without keyed once mem

/-- The mapping notation of an event is read as the event. -/
theorem ofValue_entries {e : Event} (absent : ∀ entry ∈ e.payload, entry.1.text? ≠ some typeName) :
    ofValue (.mapping e.entries) = .ok e := by
  have absent' : ¬ ∃ entry ∈ e.payload, entry.1.text? = some typeName := by
    simpa using absent
  have last : Entries.find? (e.payload ++ [(typeKey, e.type)]) typeKey = some e.type := by
    have others : List.find? (fun entry => typeKey.sameKey entry.1) e.payload = none :=
      List.find?_eq_none.2 fun entry mem same => absent entry mem (sameKey_text_iff.1 same)
    rw [Entries.find?, List.find?_append, others]
    rfl
  have rest : Entries.without (e.payload ++ [(typeKey, e.type)]) typeKey = e.payload := by
    rw [Entries.without, List.filter_append]
    exact (List.append_nil _).trans (without_of_absent absent')
  rw [entries_of_absent absent', ofValue, last, rest]

/-- **All notations of an event have one identity.** A notation is read as an event of its type, has the key of
this event, and gives its type, a text as it is; the keys of states after the notation and after the event are
the same. Reading the event once more changes nothing, and an event without a payload entry of the type's name is
read back from its mapping notation. -/
theorem notations_share_identity :
    (∀ {x type : Value}, IsNotation x type → ∃ e, ofValue x = .ok e ∧ e.type = type ∧
      SharesIdentity x e ∧ (∀ s, type = .text s → tagOf x = .ok s) ∧ ofValue e.toValue = .ok e) ∧
    ∀ e : Event, (∀ entry ∈ e.payload, entry.1.text? ≠ some typeName) →
      ofValue (.mapping e.entries) = .ok e := by
  refine ⟨fun {x type} h => ?_, fun e absent => ofValue_entries absent⟩
  obtain ⟨e, read, rfl, shares⟩ := h.exists_event
  refine ⟨e, read, rfl, shares, fun s text => ?_, ofValue_toValue e⟩
  have shown : tagOf e.toValue = .ok e.type.label := rfl
  rw [shares.tag, shown, text]
  rfl

/-- A delivery with its stops, by a number. -/
def delivery : Value :=
  .mapping [(typeKey, .text "deliver"), (.int 1, .set [.text "b", .text "a"])]

/-- The event has the type behind the stops, and the delivery has it before them; their keys are the same. -/
theorem delivery_shares_identity :
    ∃ e, ofValue delivery = .ok e ∧ e.type = .text "deliver" ∧ tagOf delivery = .ok "deliver" ∧
      keyOf e.toValue = .ok "\x7b\"<mapping>\":[[\"type\",\"deliver\"],[1,[\"a\",\"b\"]]]\x7d" ∧
      (Value.text "depot").keyAfter e.toValue = .ok "\"depot\" | deliver" ∧
      ofValue (.mapping (ofType "deliver").entries) = .ok (ofType "deliver") := by
  have once : TextsOnce [(typeKey, .text "deliver"), (.int 1, .set [.text "b", .text "a"])] := by
    simp [TextsOnce, text?, typeKey]
  have key : keyOf delivery = .ok "\x7b\"<mapping>\":[[\"type\",\"deliver\"],[1,[\"a\",\"b\"]]]\x7d" := by
    cbv
  have keyAfter : (Value.text "depot").keyAfter delivery = .ok "\"depot\" | deliver" := by
    cbv
  obtain ⟨notations, events⟩ := notations_share_identity
  obtain ⟨e, read, type, shares, tag, -⟩ := notations (.mapping once List.mem_cons_self)
  refine ⟨e, read, type, tag _ rfl, ?_, ?_, events (ofType "deliver") (List.forall_mem_nil _)⟩
  · rw [← shares.key]
    exact key
  · rw [← shares.keyAfter]
    exact keyAfter

end Event

end StateWalk
