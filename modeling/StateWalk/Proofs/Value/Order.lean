import Mathlib
import StateWalk.Proofs.Value.Parts
import StateWalk.Proofs.Value.Shuffle
import StateWalk.Value.Tree

/-!
# Keys and order

The key of a value does not depend on the order in which mappings and sets list what they hold
(`keys_ignore_order`). For values that is so because reordered values are alike (`Reordered.alike`). An event is
keyed as a mapping that has the type among the payload entries, so it has to be shown that putting it there keeps
entries alike (`forall₂_putText`, `putText_perm`).

How a validated record is dumped is up to its class. All that is asked of it is that the dump does not look at the
order of what is in no order either (`Orderly`).
-/

namespace StateWalk.Value

/-! ## The entry of a text -/

theorem putText_append_of_absent {es : Entries} {name : String} (absent : ¬ ∃ e ∈ es, e.1.text? = some name)
    (fs : Entries) (v : Value) : putText (es ++ fs) name v = es ++ putText fs name v := by
  induction es with
  | nil => rfl
  | cons e es ih =>
    have named : ¬ e.1.text? = some name := fun eq => absent ⟨e, List.mem_cons_self, eq⟩
    have later : ¬ ∃ e ∈ es, e.1.text? = some name := by simpa [named] using absent
    simp [putText, named, ih later]

theorem TextsOnce.of_cons {e : Value × Value} {es : Entries} (h : TextsOnce (e :: es)) : TextsOnce es :=
  h.sublist ((List.sublist_cons_self e es).filterMap _)

theorem TextsOnce.of_perm {es fs : Entries} (h : TextsOnce es) (perm : es.Perm fs) : TextsOnce fs :=
  (perm.filterMap _).nodup_iff.1 h

theorem texts_putText_of_mem {es : Entries} {name : String} (mem : ∃ e ∈ es, e.1.text? = some name)
    (v : Value) : (putText es name v).filterMap (fun e => e.1.text?) = es.filterMap fun e => e.1.text? := by
  induction es with
  | nil => simp at mem
  | cons e es ih =>
    by_cases named : e.1.text? = some name
    · simp [putText, named]
    · have later : ∃ e ∈ es, e.1.text? = some name := by simpa [named] using mem
      simp [putText, named, List.filterMap_cons, ih later]

theorem putText_of_absent {es : Entries} {name : String} (absent : ¬ ∃ e ∈ es, e.1.text? = some name)
    (v : Value) : putText es name v = es ++ [(text name, v)] := by
  have put := putText_append_of_absent absent [] v
  rwa [List.append_nil] at put

theorem TextsOnce.putText {es : Entries} (h : TextsOnce es) (name : String) (v : Value) :
    TextsOnce (putText es name v) := by
  by_cases mem : ∃ e ∈ es, e.1.text? = some name
  · rwa [TextsOnce, texts_putText_of_mem mem]
  · have fresh : name ∉ es.filterMap fun e => e.1.text? := fun found => mem (List.mem_filterMap.1 found)
    rw [TextsOnce, putText_of_absent mem, List.filterMap_append, List.nodup_append']
    exact ⟨h, List.nodup_singleton name, List.disjoint_singleton.2 fresh⟩

theorem putText_perm {es fs : Entries} (once : TextsOnce es) (perm : es.Perm fs) (name : String) (v : Value) :
    (putText es name v).Perm (putText fs name v) := by
  induction perm with
  | nil => exact .refl _
  | cons e perm ih =>
    by_cases named : e.1.text? = some name
    · simp [putText, named, perm]
    · simp [putText, named, ih once.of_cons]
  | swap e f es =>
    by_cases first : e.1.text? = some name
    · by_cases second : f.1.text? = some name
      · simp [TextsOnce, first, second] at once
      · simpa [putText, first, second] using List.Perm.swap ..
    · by_cases second : f.1.text? = some name
      · simpa [putText, first, second] using List.Perm.swap ..
      · simpa [putText, first, second] using List.Perm.swap ..
  | trans perm _ ih ih' => exact (ih once).trans (ih' (once.of_perm perm))

/-- Texts are found at the same places of entries that are alike. -/
theorem texts_of_forall₂ {es fs : Entries} (h : List.Forall₂ AlikeEntries es fs) :
    es.filterMap (fun e => e.1.text?) = fs.filterMap fun e => e.1.text? := by
  induction h with
  | nil => rfl
  | cons first _ ih => rw [List.filterMap_cons, List.filterMap_cons, first.key.text, ih]

theorem TextsOnce.of_alike {es fs : Entries} (once : TextsOnce es) (h : List.Forall₂ AlikeEntries es fs) :
    TextsOnce fs := by
  rw [TextsOnce, ← texts_of_forall₂ h]
  exact once

theorem forall₂_putText {es fs : Entries} (h : List.Forall₂ AlikeEntries es fs) (name : String) {v w : Value}
    (same : Alike v w) : List.Forall₂ AlikeEntries (putText es name v) (putText fs name w) := by
  induction h with
  | nil => exact .cons ⟨.refl _, same⟩ .nil
  | @cons e f _ _ first rest ih =>
    obtain ⟨key, value⟩ := first
    by_cases named : e.1.text? = some name
    · simpa only [putText, named, key.text ▸ named, if_true] using .cons ⟨key, same⟩ rest
    · simpa only [putText, named, key.text ▸ named, if_false] using .cons ⟨key, value⟩ ih

/-! ## Reordering -/

/-- What validated records of a class are dumped as, by their fields and the entries added to them. -/
abbrev Dumping := String → List (String × Value) → Entries → Except Failure Value

mutual

/-- The second value is the first one with the items of sets and the entries of mappings and of payloads in another
order, at any depth, also in keys, in fields and in what members of enumerations stand for. Validated records are
dumped by `dump`. What a value is shown as may change with it. -/
inductive Reordered (dump : Dumping) : Value → Value → Prop where
  | refl (v : Value) : Reordered dump v v
  | member {n n' : Naming} {v w : Value} : Reordered dump v w → Reordered dump (member n v) (member n' w)
  | list {vs ws : List Value} : List.Forall₂ (Reordered dump) vs ws → Reordered dump (list vs) (list ws)
  | tuple {vs ws : List Value} : List.Forall₂ (Reordered dump) vs ws → Reordered dump (tuple vs) (tuple ws)
  | set {vs us ws : List Value} : List.Forall₂ (Reordered dump) vs us → us.Perm ws →
      Reordered dump (set vs) (set ws)
  | frozenSet {vs us ws : List Value} : List.Forall₂ (Reordered dump) vs us → us.Perm ws →
      Reordered dump (frozenSet vs) (frozenSet ws)
  | mapping {es ds fs : Entries} : TextsOnce es → List.Forall₂ (ReorderedEntry dump) es ds → ds.Perm fs →
      Reordered dump (mapping es) (mapping fs)
  | record {className : String} {fs gs : List (String × Value)} {uncompared : List String} :
      List.Forall₂ (ReorderedField dump) fs gs →
      Reordered dump (record className fs uncompared) (record className gs uncompared)
  | model {n n' : Naming} {fs gs : List (String × Value)} {added : Entries}
      {members members' : Except Failure (List Value)} : n.className = n'.className →
      (fs.map Prod.fst).Nodup → List.Forall₂ (ReorderedField dump) fs gs →
      Reordered dump (model n fs added members (dump n.className fs added))
        (model n' gs added members' (dump n'.className gs added))
  | event {type type' : Value} {p d q : Entries} : Reordered dump type type' → TextsOnce p →
      List.Forall₂ (ReorderedEntry dump) p d → d.Perm q → Reordered dump (event type p) (event type' q)
  | step {s s' e e' : Value} : Reordered dump s s' → Reordered dump e e' →
      Reordered dump (step s e) (step s' e')
  | snapshot {v v' c c' e e' : Value} : Reordered dump v v' → Reordered dump c c' → Reordered dump e e' →
      Reordered dump (snapshot v c e) (snapshot v' c' e')

/-- Both parts of an entry may be reordered. -/
inductive ReorderedEntry (dump : Dumping) : Value × Value → Value × Value → Prop where
  | mk {k k' v v' : Value} : Reordered dump k k' → Reordered dump v v' → ReorderedEntry dump (k, v) (k', v')

/-- A field keeps its name. -/
inductive ReorderedField (dump : Dumping) : String × Value → String × Value → Prop where
  | mk {v w : Value} (name : String) : Reordered dump v w → ReorderedField dump (name, v) (name, w)

end

/-- What is asked of the dump of validated records: it does not look at the order of what is in no order. -/
structure Orderly (dump : Dumping) : Prop where
  /-- Reordering what is in the fields neither makes a dump fail nor mends it. -/
  outcome {className : String} {added : Entries} {fs gs : List (String × Value)} : (fs.map Prod.fst).Nodup →
    List.Forall₂ (ReorderedField dump) fs gs →
    (dump className fs added).isOk = (dump className gs added).isOk
  /-- The dump of reordered fields is reordered. -/
  dumped {className : String} {added : Entries} {fs gs : List (String × Value)} {v w : Value} :
    (fs.map Prod.fst).Nodup → List.Forall₂ (ReorderedField dump) fs gs →
    dump className fs added = .ok v → dump className gs added = .ok w → Reordered dump v w

section

variable {dump : Dumping}

/-- What follows for the members of a list follows along it. -/
theorem forall₂_imp_of_mem {α : Type} {R S : α → α → Prop} {as bs : List α} (h : List.Forall₂ R as bs)
    (imp : ∀ a ∈ as, ∀ b, R a b → S a b) : List.Forall₂ S as bs := by
  induction h with
  | nil => exact .nil
  | cons first _ ih =>
    obtain ⟨head, rest⟩ := List.forall_mem_cons.1 imp
    exact .cons (head _ first) (ih rest)

/-- The dumps of alike fields are alike, or both fail. -/
theorem Alike.model {n n' : Naming} {fs gs : List (String × Value)} {added added' : Entries}
    {members members' : Except Failure (List Value)} {left right : Except Failure Value}
    (outcome : left.isOk = right.isOk) (same : ∀ v w, left = .ok v → right = .ok w → Alike v w) :
    Alike (model n fs added members left) (model n' gs added' members' right) := by
  cases left with
  | ok v =>
    cases right with
    | ok w =>
      obtain ⟨render, name, hasKey, -, -⟩ := same v w rfl rfl
      exact ⟨render, name, hasKey, rfl, rfl⟩
    | error => cases outcome
  | error =>
    cases right with
    | ok w => cases outcome
    | error => exact ⟨rfl, rfl, rfl, rfl, rfl⟩

/-- Entries that are alike in pairs, in whatever order. -/
theorem Alike.mapping {es ds fs : Entries} (once : TextsOnce es) (h : List.Forall₂ AlikeEntries es ds)
    (perm : ds.Perm fs) : Alike (mapping es) (mapping fs) := by
  exact (Alike.entries h).trans (.entries_of_perm (once.of_alike h) perm)

/-- Reordered values are alike, as the forms of their parts are. A dump is smaller than the record that gives it, so
the induction is on the first value and not on how the second one came about. -/
theorem Reordered.alike (orderly : Orderly dump) (v : Value) : ∀ {w}, Reordered dump v w → Alike v w := by
  induction v using induction_on_parts with | step v ih
  intro w h
  have entries {es ds : Entries} (aligned : List.Forall₂ (ReorderedEntry dump) es ds)
      (keys : ∀ e ∈ es, IsPart e.1 v) (values : ∀ e ∈ es, IsPart e.2 v) : List.Forall₂ AlikeEntries es ds := by
    refine forall₂_imp_of_mem aligned fun e mem f entry => ?_
    cases entry with | mk key value
    exact ⟨ih _ (keys _ mem) key, ih _ (values _ mem) value⟩
  cases h with
  | refl => exact .refl v
  | @member n n' v _ h => exact (ih v (.underlying n v) h).member n n'
  | list h => exact .list (forall₂_imp_of_mem h fun u mem _ same => ih u (.listItem mem) same)
  | tuple h => exact .tuple (forall₂_imp_of_mem h fun u mem _ same => ih u (.tupleItem mem) same)
  | set h perm => exact .set (forall₂_imp_of_mem h fun u mem _ same => ih u (.setItem mem) same) perm
  | frozenSet h perm =>
    exact .frozenSet (forall₂_imp_of_mem h fun u mem _ same => ih u (.frozenSetItem mem) same) perm
  | mapping once h perm =>
    exact .mapping once (entries h (fun _ => .mappingKey) fun _ => .mappingValue) perm
  | record h =>
    refine .record (forall₂_imp_of_mem h fun f mem g field => ?_)
    cases field with | mk name same
    exact ⟨rfl, fun compared => ih _ (.recordField mem compared) same⟩
  | @model n n' fs gs added members members' className once h =>
    rw [← className]
    refine .model (orderly.outcome once h) fun x y left right => ?_
    exact ih x (left ▸ .dumped n fs added members x) (orderly.dumped once h left right)
  | @event type _ p _ _ types once h perm =>
    have payloads := entries h (fun _ => .payloadKey) fun _ => .payloadValue
    exact (ih type (.eventType type p) types).event (.mapping once payloads perm)
  | @step s _ e _ states events => exact (ih s (.stepState s e) states).step (ih e (.stepEvent s e) events)
  | @snapshot v _ c _ e _ values contexts =>
    exact (ih v (.snapshotValue v c e) values).snapshot (ih c (.snapshotContext v c e) contexts) _ _

end

end StateWalk.Value

namespace StateWalk.Event

open Value

/-- The value has the fields of an event, with this type and this payload. -/
structure HasParts (v type : Value) (payload : Entries) : Prop where
  type : v.field typeName = .ok type
  payload : v.field "payload" = .ok (.mapping payload)

theorem HasParts.payloadOf {v type : Value} {payload : Entries} (h : HasParts v type payload) :
    payloadOf v = .ok payload := by
  rw [Event.payloadOf, h.payload]
  cases payload <;> rfl

theorem HasParts.keyOf {v type : Value} {payload : Entries} (h : HasParts v type payload) :
    keyOf v = key ⟨type, payload⟩ := by
  have fields : Event.keyOf v = (do
      let payload ← Event.payloadOf v
      key ⟨← v.field typeName, payload⟩) := by
    cases v with
    | text | textMember | mapping => cases h.type
    | _ => rfl
  rw [fields, h.payloadOf, h.type]
  rfl

/-- Two calculations of a key give the same one, or neither gives one. -/
abbrev KeysAgree (left right : Except Fault String) : Prop := ∀ k, left = .ok k ↔ right = .ok k

section

variable {dump : Dumping}

/-- A reordered mapping has entries that are alike in pairs, in whatever order. -/
theorem exists_alikeEntries (orderly : Orderly dump) {p q : Entries}
    (h : Reordered dump (mapping p) (mapping q)) :
    p = q ∨ TextsOnce p ∧ ∃ d, List.Forall₂ AlikeEntries p d ∧ d.Perm q := by
  cases h with
  | refl => exact .inl rfl
  | mapping once h perm =>
    refine .inr ⟨once, _, h.imp fun e f entry => ?_, perm⟩
    cases entry with | mk key value
    exact ⟨key.alike orderly, value.alike orderly⟩

/-- The type takes its place among the entries of the payload, which stay alike. -/
theorem keysAgree_of_parts (orderly : Orderly dump) {type type' : Value} {p q : Entries}
    (types : Reordered dump type type') (payloads : Reordered dump (mapping p) (mapping q)) :
    KeysAgree (key ⟨type, p⟩) (key ⟨type', q⟩) := by
  refine Alike.key_eq_ok_iff ?_
  have same := types.alike orderly
  obtain rfl | ⟨once, d, aligned, perm⟩ := exists_alikeEntries orderly payloads
  · exact .entries (forall₂_putText (List.forall₂_same.2 fun e _ => ⟨.refl e.1, .refl e.2⟩) typeName same)
  · exact .mapping (once.putText typeName type) (forall₂_putText aligned typeName same)
      (putText_perm (once.of_alike aligned) perm typeName type')

/-- **Keys do not depend on order.** Take any way of dumping validated records that does not look at the order of what
is in no order. Then reordered values have the same key, or neither has one; a value has one unless a record is found
in it whose dump fails. Events with types and payloads that are reordered have the same key as well, in any notation. -/
theorem keys_ignore_order (orderly : Orderly dump) :
    (∀ v : Value, (∃ k, v.key = .ok k) ↔ ¬ Stuck v) ∧
      (∀ {v w : Value}, Reordered dump v w → KeysAgree v.key w.key) ∧
      (∀ {e f : Event}, Reordered dump e.toValue f.toValue → KeysAgree e.key f.key) ∧
      (∀ {es fs : Entries}, Reordered dump (mapping es) (mapping fs) →
        KeysAgree (keyOf (mapping es)) (keyOf (mapping fs))) ∧
      ∀ {v w type type' : Value} {payload payload' : Entries}, HasParts v type payload →
        HasParts w type' payload' → Reordered dump type type' →
        Reordered dump (mapping payload) (mapping payload') → KeysAgree (keyOf v) (keyOf w) := by
  refine ⟨fun v => exists_key_iff.trans (hasKey_iff v), fun h => (h.alike orderly).key_eq_ok_iff, fun {e f} h => ?_,
    fun h => (h.alike orderly).key_eq_ok_iff, fun hv hw types payloads => ?_⟩
  · obtain ⟨type, p⟩ := e
    obtain ⟨type', q⟩ := f
    cases h with
    | refl => exact fun _ => .rfl
    | event types once aligned perm => exact keysAgree_of_parts orderly types (.mapping once aligned perm)
  · rw [hv.keyOf, hw.keyOf]
    exact keysAgree_of_parts orderly types payloads

end

/-- A validated record is dumped as the mapping of its fields. -/
def plainly : Dumping := fun _ fields _ => .ok (ofFields fields)

theorem plainly_orderly : Orderly plainly where
  outcome _ _ := rfl
  dumped {_ _ fs gs _ _} once h left right := by
    cases left
    cases right
    refine .mapping (textsOnce_textMapping once) ?_ (.refl _)
    rw [List.forall₂_map_left_iff, List.forall₂_map_right_iff]
    refine h.imp fun f g field => ?_
    cases field with | mk name same
    exact .mk (.refl _) same

/-- A validated record with the names of guests. -/
def guestList (names : Value) : Value :=
  .model ⟨"Guests", "names", "Guests(names)"⟩ [("names", names)] [] (.ok []) (plainly "Guests" [("names", names)] [])

theorem guestList_reordered {v w : Value} (names : Reordered plainly v w) :
    Reordered plainly (guestList v) (guestList w) :=
  .model rfl (List.nodup_singleton "names") (.cons (.mk "names" names) .nil)

/-- Guests in a validated record, what they ordered, and tables with the integer one and the text `1` for keys. -/
def seating (guests : List Value) (orders tables : Entries) : Value :=
  .record "Seating"
    [("guests", guestList (.set guests)), ("seats", .tuple [.mapping orders, .mapping tables])] []

def seatPlan : Value :=
  seating [.text "ann", .text "bob"] [(.text "ann", .int 2), (.text "bob", .null)]
    [(.text "1", .bool true), (.int 1, .bool false)]

/-- The same plan, with everything the other way round. -/
def otherSeatPlan : Value :=
  seating [.text "bob", .text "ann"] [(.text "bob", .null), (.text "ann", .int 2)]
    [(.int 1, .bool false), (.text "1", .bool true)]

theorem forall₂_refl_items (vs : List Value) : List.Forall₂ (Reordered plainly) vs vs :=
  List.forall₂_same.2 fun v _ => .refl v

theorem forall₂_refl_entries (es : Entries) : List.Forall₂ (ReorderedEntry plainly) es es :=
  List.forall₂_same.2 fun e _ => .mk (.refl e.1) (.refl e.2)

theorem seatPlan_reordered : Reordered plainly seatPlan otherSeatPlan := by
  have orders : Reordered plainly (.mapping [(.text "ann", .int 2), (.text "bob", .null)])
      (.mapping [(.text "bob", .null), (.text "ann", .int 2)]) :=
    .mapping (by simp [TextsOnce, text?]) (forall₂_refl_entries _) (.swap ..)
  have tables : Reordered plainly (.mapping [(.text "1", .bool true), (.int 1, .bool false)])
      (.mapping [(.int 1, .bool false), (.text "1", .bool true)]) :=
    .mapping (by simp [TextsOnce, text?]) (forall₂_refl_entries _) (.swap ..)
  have names : Reordered plainly (.set [.text "ann", .text "bob"]) (.set [.text "bob", .text "ann"]) :=
    .set (forall₂_refl_items _) (.swap ..)
  have seats := Reordered.tuple (.cons orders (.cons tables .nil))
  exact .record (.cons (.mk "guests" (guestList_reordered names)) (.cons (.mk "seats" seats) .nil))

theorem seatPlan_payload_reordered :
    Reordered plainly (.mapping [(.int 1, .null), (.text "plan", seatPlan)])
      (.mapping [(.text "plan", otherSeatPlan), (.int 1, .null)]) :=
  .mapping (by simp [TextsOnce, text?]) (.cons (.mk (.refl _) (.refl _)) (.cons (.mk (.refl _) seatPlan_reordered) .nil))
    (.swap ..)

/-- The two plans have one key, and so do events about them, in any notation. -/
theorem seatPlan_key_ignores_order :
    Orderly plainly ∧ Reordered plainly seatPlan otherSeatPlan ∧
      otherSeatPlan.key = .ok ("\x7b\"guests\":\x7b\"names\":[\"ann\",\"bob\"]\x7d,\"seats\":[" ++
        "\x7b\"ann\":2,\"bob\":null\x7d,\x7b\"<mapping>\":[[\"1\",true],[1,false]]\x7d]\x7d") ∧
      KeysAgree (Event.mk (.text "seat") [(.int 1, .null), (.text "plan", seatPlan)]).key
        (Event.mk (.text "seat") [(.text "plan", otherSeatPlan), (.int 1, .null)]).key ∧
      KeysAgree (keyOf (.mapping [(.int 1, .null), (.text "plan", seatPlan)]))
        (keyOf (.mapping [(.text "plan", otherSeatPlan), (.int 1, .null)])) ∧
      KeysAgree
        (keyOf (.record "Seat" [("type", .text "seat"),
          ("payload", .mapping [(.int 1, .null), (.text "plan", seatPlan)])] []))
        (keyOf (.record "Seat" [("type", .text "seat"),
          ("payload", .mapping [(.text "plan", otherSeatPlan), (.int 1, .null)])] [])) := by
  obtain ⟨-, keys, events, mappings, notations⟩ := keys_ignore_order plainly_orderly
  have texts : TextsOnce [(.int 1, .null), (.text "plan", seatPlan)] := by
    simp [TextsOnce, text?]
  have aligned : List.Forall₂ (ReorderedEntry plainly) [(.int 1, .null), (.text "plan", seatPlan)]
      [(.int 1, .null), (.text "plan", otherSeatPlan)] :=
    .cons (.mk (.refl _) (.refl _)) (.cons (.mk (.refl _) seatPlan_reordered) .nil)
  refine ⟨plainly_orderly, seatPlan_reordered, ?_, ?_, mappings seatPlan_payload_reordered, ?_⟩
  · exact (keys seatPlan_reordered _).1 (by cbv)
  · exact events (.event (.refl _) texts aligned (.swap ..))
  · exact notations ⟨rfl, rfl⟩ ⟨rfl, rfl⟩ (.refl _) seatPlan_payload_reordered

end StateWalk.Event
