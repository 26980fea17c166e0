import StateWalk.Proofs.Search.SimplePlans

/-!
# Options that search one graph

Of the options of a search only the keys, the events and the filter say what the searched graph is. The
others bound the search, or say what is kept of what it finds. So whatever is said of the graph under
some options holds under all that agree on these three.
-/

namespace StateWalk.Search

variable {σ κ : Type} {b : Behavior σ κ} {o o' : Options σ κ}

/-- The options agree on what a node is, on the events and on the filter. -/
structure SameGraph (o o' : Options σ κ) : Prop where
  stateKey : o'.stateKey = o.stateKey
  events : o'.events = o.events
  filter : o'.filter = o.filter

namespace SameGraph

theorem symm (same : SameGraph o o') : SameGraph o' o :=
  ⟨same.stateKey.symm, same.events.symm, same.filter.symm⟩

theorem eventsAt_eq (same : SameGraph o o') (b : Behavior σ κ) (s : σ) :
    eventsAt b o' s = eventsAt b o s := by
  rw [eventsAt, eventsAt, same.events]

theorem admits_eq (same : SameGraph o o') (s : σ) : o'.admits s = o.admits s := by
  rw [Options.admits, Options.admits, same.filter]

theorem endKey_eq (same : SameGraph o o') (steps : List (Step σ)) (s : σ) :
    endKey o' steps s = endKey o steps s := by
  rw [endKey, endKey, same.stateKey]

theorem nodeKey_eq [KeyType κ] (same : SameGraph o o') (s : σ) (e : Option Event) :
    o'.nodeKey s e = o.nodeKey s e := by
  rw [Options.nodeKey, Options.nodeKey, same.stateKey]

theorem successor?_eq (same : SameGraph o o') (b : Behavior σ κ) (enters : κ → Except Fault Bool) (s : σ)
    (e : Event) : successor? b o' enters s e = successor? b o enters s e := by
  simp only [successor?, same.admits_eq, same.stateKey]

theorem successors_eq (same : SameGraph o o') (b : Behavior σ κ) (enters : κ → Except Fault Bool)
    (s : σ) : successors b o' enters s = successors b o enters s := by
  have by_events : ∀ es, successorsBy b o' enters s es = successorsBy b o enters s es := by
    intro es
    induction es with
    | nil => rfl
    | cons e es ih => rw [successorsBy, successorsBy, same.successor?_eq, ih]
  simp only [successors, same.eventsAt_eq, by_events]

theorem sends (same : SameGraph o o') {s t : σ} {e : Event} (h : Sends b o s e t) :
    Sends b o' s e t where
  tried := by
    obtain ⟨es, tried, mem⟩ := h.tried
    exact ⟨es, by rw [same.eventsAt_eq, tried], mem⟩
  leads := h.leads
  passes := by rw [same.admits_eq, h.passes]

theorem admitted (same : SameGraph o o') {steps : List (Step σ)} {s : σ} (h : Admitted b o steps s) :
    Admitted b o' steps s := by
  induction h with
  | initial => exact .initial
  | send _ sent ih => exact .send ih (same.sends sent)

theorem nodesDetermine (same : SameGraph o o') (alike : NodesDetermine b o) : NodesDetermine b o' := by
  intro steps steps' s s' k h ends h' ends' e t sent
  rw [same.endKey_eq] at ends ends'
  have back := same.symm
  obtain ⟨e', t', sent', key⟩ := alike (back.admitted h) ends (back.admitted h') ends' e t (back.sends sent)
  exact ⟨e', t', same.sends sent', by rw [same.stateKey, key]⟩

theorem arrivesAt (same : SameGraph o o') {a : Arrival σ} {k : κ} (h : a.At b o k) : a.At b o' k :=
  ⟨same.admitted h.admitted, by rw [same.endKey_eq, h.ends]⟩

theorem forNode (same : SameGraph o o') {plan : Plan σ} {k : κ} (h : plan.ForNode b o k) :
    plan.ForNode b o' k where
  first := h.first
  arrivals := by
    intro p hp
    obtain ⟨a, arrives, path⟩ := h.arrivals p hp
    exact ⟨a, same.arrivesAt arrives, path⟩

theorem acyclic (same : SameGraph o o') {steps : List (Step σ)} {s : σ} {nodes : List κ}
    (h : Acyclic b o steps s nodes) : Acyclic b o' steps s nodes := by
  induction h with
  | initial key => exact .initial (by rw [same.stateKey, key])
  | send _ sent key new ih => exact .send ih (same.sends sent) (by rw [same.stateKey, key]) new

theorem leads (same : SameGraph o o') {v w : Visit σ κ} {choices : List Nat}
    (h : Leads b o v choices w) : Leads b o' v choices w := by
  induction choices generalizing v with
  | nil => exact h
  | cons i choices ih =>
    obtain ⟨events, e, u, tried, at_i, follows, rest⟩ := h
    refine ⟨events, e, u, by rw [same.eventsAt_eq, tried], at_i, ?_, ih rest⟩
    cases follows with
    | toward leads passes key =>
      exact .toward leads (by rw [same.admits_eq, passes]) (by rw [same.stateKey, key])

theorem simpleRoute (same : SameGraph o o') {choices : List Nat} {v : Visit σ κ}
    (h : SimpleRoute b o choices v) : SimpleRoute b o' choices v := by
  obtain ⟨key, initial, leads, distinct⟩ := h
  exact ⟨key, by rw [same.stateKey, initial], same.leads leads, distinct⟩

end SameGraph

end StateWalk.Search
