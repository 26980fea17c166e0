import StateWalk.Proofs.Outcome
import StateWalk.Search.Shortest

/-!
# Admitted steps

The graph that a search explores, without the search: an event is sent in a state if it is tried there
and the state that it leads to passes the filter, and steps are admitted if they start at the initial
state and each of them is sent from the state that the one before led to.

`mem_successors_iff` says that the successors which a search computes are the states that events sent
lead to, as far as their nodes are entered, and `exists_key_of_sends` that a search which goes on has
computed the node of every state that an event sent leads to.
-/

namespace StateWalk.Search

open Outcome

variable {σ κ : Type} {b : Behavior σ κ} {o : Options σ κ}

/-- The event is among those to try in the state. -/
def Tries (b : Behavior σ κ) (o : Options σ κ) (s : σ) (e : Event) : Prop :=
  ∃ es, eventsAt b o s = .ok es ∧ e ∈ es

/-- The event is tried in `s` and leads to `t`, which passes the filter. -/
structure Sends (b : Behavior σ κ) (o : Options σ κ) (s : σ) (e : Event) (t : σ) : Prop where
  tried : Tries b o s e
  leads : b.transition s e = .ok t
  passes : o.admits t = .ok true

/-- The steps start at the initial state, each of them is sent, and the last one leads to the state. -/
inductive Admitted (b : Behavior σ κ) (o : Options σ κ) : List (Step σ) → σ → Prop where
  | initial : Admitted b o [] b.initial
  | send {steps : List (Step σ)} {s t : σ} {e : Event} :
      Admitted b o steps s → Sends b o s e t → Admitted b o (steps ++ [⟨s, e⟩]) t

/-- The event of the last step, if there is one. -/
def lastEvent (steps : List (Step σ)) : Option Event := steps.getLast?.map Step.event

/-- The key of the node at which steps to a state end. -/
def endKey (o : Options σ κ) (steps : List (Step σ)) (s : σ) : Except Fault κ :=
  o.stateKey s (lastEvent steps)

/-- Nodes determine what follows: where admitted steps end at one node in two states, every node that an event
sent in one of them leads to is one that an event sent in the other leads to. So it is if the two are sent
the same events, in whatever order their payloads list the entries, and each leads to one node from both. -/
def NodesDetermine (b : Behavior σ κ) (o : Options σ κ) : Prop :=
  ∀ {steps steps' : List (Step σ)} {s s' : σ} {k : κ},
    Admitted b o steps s → endKey o steps s = .ok k →
    Admitted b o steps' s' → endKey o steps' s' = .ok k →
    ∀ e t, Sends b o s e t →
      ∃ e' t', Sends b o s' e' t' ∧ o.stateKey t' (some e') = o.stateKey t (some e)

@[simp]
theorem lastEvent_nil : lastEvent ([] : List (Step σ)) = none := rfl

@[simp]
theorem lastEvent_concat (steps : List (Step σ)) (step : Step σ) :
    lastEvent (steps ++ [step]) = some step.event := by
  simp [lastEvent]

theorem nodeKey_eq_stateKey [KeyType κ] [LawfulKeyType κ] (o : Options σ κ) (s : σ) (e : Option Event) :
    o.nodeKey s e = o.stateKey s e := by
  simp only [Options.nodeKey, LawfulKeyType.check_eq_ok]
  cases o.stateKey s e <;> rfl

/-! ## Events -/

/-- Events as values are read back. -/
theorem mapM_ofValue_toValue (es : List Event) : (es.map Event.toValue).mapM Event.ofValue = .ok es := by
  rw [mapM_eq_ok_iff_forall₂, List.forall₂_map_left_iff, List.forall₂_same]
  exact fun e _ => e.ofValue_toValue

/-! ## Successors -/

/-- What becomes of one event: the filter rejects the state, or its node is not entered, or the state
is a successor. -/
theorem successor?_eq_ok_iff {enters : κ → Except Fault Bool} {s : σ} {e : Event}
    {r : Option (Successor σ κ)} :
    successor? b o enters s e = .ok r ↔ ∃ t, b.transition s e = .ok t ∧
      (o.admits t = .ok false ∧ r = none ∨
        o.admits t = .ok true ∧ ∃ k, o.stateKey t (some e) = .ok k ∧
          (enters k = .ok false ∧ r = none ∨ enters k = .ok true ∧ r = some ⟨e, t, k⟩)) := by
  simp only [successor?, bind_eq_ok_iff]
  constructor
  · rintro ⟨t, leads, admits, passes, rest⟩
    refine ⟨t, leads, ?_⟩
    cases admits with
    | false => exact .inl ⟨passes, by cases rest; rfl⟩
    | true =>
      simp only [if_true, bind_eq_ok_iff] at rest
      obtain ⟨k, key, entered, asked, eq⟩ := rest
      refine .inr ⟨passes, k, key, ?_⟩
      cases entered with
      | false => exact .inl ⟨asked, by cases eq; rfl⟩
      | true => exact .inr ⟨asked, by cases eq; rfl⟩
  · rintro ⟨t, leads, ⟨passes, rfl⟩ | ⟨passes, k, key, ⟨asked, rfl⟩ | ⟨asked, rfl⟩⟩⟩
    · exact ⟨t, leads, false, passes, rfl⟩
    · refine ⟨t, leads, true, passes, ?_⟩
      simp only [if_true, bind_eq_ok_iff]
      exact ⟨k, key, false, asked, rfl⟩
    · refine ⟨t, leads, true, passes, ?_⟩
      simp only [if_true, bind_eq_ok_iff]
      exact ⟨k, key, true, asked, rfl⟩

theorem successorsBy_eq_ok_iff {enters : κ → Except Fault Bool} {s : σ} {es : List Event}
    {found : List (Successor σ κ)} :
    successorsBy b o enters s es = .ok found ↔
      ∃ rs, es.mapM (successor? b o enters s) = .ok rs ∧ found = rs.flatMap Option.toList := by
  induction es generalizing found with
  | nil => simp [successorsBy, pure, Except.pure, eq_comm]
  | cons e es ih =>
    simp only [successorsBy, List.mapM_cons, bind_eq_ok_iff, ih]
    constructor
    · rintro ⟨r, hr, rest, ⟨rs, hrs, rfl⟩, eq⟩
      cases eq
      exact ⟨r :: rs, ⟨r, hr, rs, hrs, rfl⟩, by simp⟩
    · rintro ⟨_, ⟨r, hr, rs, hrs, eq⟩, rfl⟩
      cases eq
      exact ⟨r, hr, _, ⟨rs, hrs, rfl⟩, by simp [pure, Except.pure]⟩

/-- The successors of a state come from the events tried in it, one after the other. -/
theorem successors_eq_ok_iff {enters : κ → Except Fault Bool} {s : σ}
    {found : List (Successor σ κ)} :
    successors b o enters s = .ok found ↔ ∃ es rs, eventsAt b o s = .ok es ∧
      List.Forall₂ (fun e r => successor? b o enters s e = .ok r) es rs ∧
      found = rs.flatMap Option.toList := by
  simp only [successors, bind_eq_ok_iff, successorsBy_eq_ok_iff, mapM_eq_ok_iff_forall₂]
  exact ⟨fun ⟨es, tried, rs, rest⟩ => ⟨es, rs, tried, rest⟩,
    fun ⟨es, rs, tried, rest⟩ => ⟨es, tried, rs, rest⟩⟩

theorem mem_successors_iff {enters : κ → Except Fault Bool} {s : σ} {found : List (Successor σ κ)}
    (h : successors b o enters s = .ok found) {x : Successor σ κ} :
    x ∈ found ↔ Sends b o s x.event x.state ∧ o.stateKey x.state (some x.event) = .ok x.key ∧
      enters x.key = .ok true := by
  obtain ⟨es, rs, tried, made, rfl⟩ := successors_eq_ok_iff.1 h
  simp only [List.mem_flatMap, Option.mem_toList]
  constructor
  · rintro ⟨r, hr, rfl⟩
    obtain ⟨e, he, made⟩ := exists_left_of_forall₂ made hr
    obtain ⟨t, leads, ⟨_, eq⟩ | ⟨passes, k, key, ⟨_, eq⟩ | ⟨entered, eq⟩⟩⟩ :=
      successor?_eq_ok_iff.1 made
    · cases eq
    · cases eq
    · cases eq
      exact ⟨⟨⟨es, tried, he⟩, leads, passes⟩, key, entered⟩
  · rintro ⟨⟨⟨es', tried', he⟩, leads, passes⟩, key, entered⟩
    cases tried.symm.trans tried'
    obtain ⟨r, hr, made⟩ := exists_right_of_forall₂ made he
    obtain ⟨t, leads', rest⟩ := successor?_eq_ok_iff.1 made
    cases leads.symm.trans leads'
    simp only [passes, key, entered, Except.ok.injEq, Bool.true_eq_false, false_and, true_and,
      false_or, exists_eq_left'] at rest
    exact ⟨r, hr, rest⟩

/-- A computation of successors asks for the node of every state that an event sent leads to. -/
theorem exists_key_of_sends {enters : κ → Except Fault Bool} {s t : σ} {e : Event}
    {found : List (Successor σ κ)} (h : successors b o enters s = .ok found)
    (sent : Sends b o s e t) :
    ∃ k, o.stateKey t (some e) = .ok k ∧
      (enters k = .ok false ∨ enters k = .ok true ∧ ⟨e, t, k⟩ ∈ found) := by
  obtain ⟨es, rs, tried, made, rfl⟩ := successors_eq_ok_iff.1 h
  obtain ⟨es', tried', he⟩ := sent.tried
  cases tried.symm.trans tried'
  obtain ⟨r, hr, made⟩ := exists_right_of_forall₂ made he
  obtain ⟨t', leads, rest⟩ := successor?_eq_ok_iff.1 made
  cases sent.leads.symm.trans leads
  obtain ⟨passes, -⟩ | ⟨-, k, key, ⟨asked, -⟩ | ⟨asked, rfl⟩⟩ := rest
  · cases sent.passes.symm.trans passes
  · exact ⟨k, key, .inl asked⟩
  · exact ⟨k, key, .inr ⟨asked, List.mem_flatMap.2 ⟨_, hr, by simp⟩⟩⟩

/-! ## Arrivals -/

namespace Arrival

/-- The steps taken, the first one first. -/
def steps (a : Arrival σ) : List (Step σ) := a.trail.reverse

/-- The arrival is by admitted steps, and they end at the node of this key. -/
structure At (b : Behavior σ κ) (o : Options σ κ) (a : Arrival σ) (k : κ) : Prop where
  admitted : Admitted b o a.steps a.state
  ends : endKey o a.steps a.state = .ok k

@[simp]
theorem length_steps (a : Arrival σ) : a.steps.length = a.depth := List.length_reverse

@[simp]
theorem steps_extend (a : Arrival σ) (x : Successor σ κ) :
    (a.extend x).steps = a.steps ++ [⟨a.state, x.event⟩] := List.reverse_cons

@[simp]
theorem depth_extend (a : Arrival σ) (x : Successor σ κ) : (a.extend x).depth = a.depth + 1 := rfl

theorem at_initial {k : κ} (h : o.stateKey b.initial none = .ok k) : At b o ⟨b.initial, []⟩ k :=
  ⟨.initial, h⟩

theorem At.extend {a : Arrival σ} {x : Successor σ κ} (admitted : Admitted b o a.steps a.state)
    (sent : Sends b o a.state x.event x.state)
    (key : o.stateKey x.state (some x.event) = .ok x.key) : At b o (a.extend x) x.key where
  admitted := by
    rw [steps_extend]
    exact .send admitted sent
  ends := by
    rw [endKey, steps_extend, lastEvent_concat]
    exact key

end Arrival

/-! ## A carousel -/

/-- The places of a carousel. -/
inductive Place where
  | first
  | second
  | third
  deriving DecidableEq

def Place.next : Place → Place
  | first => second
  | second => third
  | third => first

def skips (e : Event) : Bool := e.type.text? == some "skip"

/-- The carousel moves by one place or by two. Its states count the moves, so they are infinitely
many. -/
def carousel : Behavior (Place × Nat) String where
  initial := (.first, 0)
  transition s e := .ok (if skips e then s.1.next.next else s.1.next, s.2 + 1)
  events _ := .ofList [.text "step", .text "skip", .text "step"]

/-- A node is a place, but the third place has two. The first place is not entered again. -/
def carouselOptions : Options (Place × Nat) String where
  stateKey s e := .ok <| match s.1 with
    | .first => "first"
    | .second => "second"
    | .third => if e.any skips then "third, skipped" else "third"
  eventKey := Event.keyIn String
  filter := some fun s => .ok (s.1 != .first)
  limit := some 11
  fuel := 0

theorem place_of_carouselKey {s s' : Place × Nat} {e e' : Option Event}
    (h : carouselOptions.stateKey s e = carouselOptions.stateKey s' e') : s.1 = s'.1 := by
  obtain ⟨place, count⟩ := s
  obtain ⟨place', count'⟩ := s'
  cases place <;> cases place' <;> simp only [carouselOptions, Except.ok.injEq] at h ⊢ <;>
    revert h <;> (try split) <;> decide

theorem carousel_nodesDetermine : NodesDetermine carousel carouselOptions := by
  intro steps steps' s s' k _ ends _ ends' e t sent
  have same : s.1 = s'.1 := place_of_carouselKey (ends.trans ends'.symm)
  obtain ⟨⟨es, tried, mem⟩, leads, passes⟩ := sent
  cases leads
  refine ⟨e, (if skips e then s'.1.next.next else s'.1.next, s'.2 + 1), ⟨⟨es, tried, mem⟩, rfl, ?_⟩, ?_⟩
  · rw [← same]
    exact passes
  · rw [← same]
    rfl

end StateWalk.Search
