import Mathlib.Data.List.Lex
import StateWalk.Proofs.Search.Exploration

/-!
# The order of a depth-first search

A route is determined by its choices: in each of its states, the place of the event sent among the
events tried. An event that is tried twice makes two choices, so choices tell occurrences of a route
apart. Pre-order is the lexicographic order of the choices, in which a route comes before those that go
on from it.

`explored_inPreorder` says that the recursion makes the visits of all routes without a repeated node,
each once, in this order.
-/

namespace StateWalk.Search

open Outcome

variable {σ κ : Type} {b : Behavior σ κ} {o : Options σ κ}

/-- The visit that follows by way of an event; its state passes the filter. -/
inductive FollowsBy (b : Behavior σ κ) (o : Options σ κ) (v : Visit σ κ) (e : Event) :
    Visit σ κ → Prop where
  | toward {t : σ} {k : κ} (leads : b.transition v.arrival.state e = .ok t)
      (passes : o.admits t = .ok true) (key : o.stateKey t (some e) = .ok k) :
      FollowsBy b o v e (v.toward e t k)

/-- The choices lead from one visit to another. The nodes on the route may repeat. -/
def Leads (b : Behavior σ κ) (o : Options σ κ) : Visit σ κ → List Nat → Visit σ κ → Prop
  | v, [], w => w = v
  | v, i :: choices, w => ∃ events e u, eventsAt b o v.arrival.state = .ok events ∧
      events[i]? = some e ∧ FollowsBy b o v e u ∧ Leads b o u choices w

/-- The visits are those of all routes from `v` that meet no node twice, one for every list of choices,
in the lexicographic order of the choices. -/
def InPreorder (b : Behavior σ κ) (o : Options σ κ) (v : Visit σ κ) (visits : List (Visit σ κ)) : Prop :=
  ∃ table : List (List Nat × Visit σ κ), table.map Prod.snd = visits ∧
    (table.map Prod.fst).Pairwise (List.Lex (· < ·)) ∧
    ∀ choices w, (choices, w) ∈ table ↔ Leads b o v choices w ∧ w.onRoute.Nodup

theorem FollowsBy.unique {v u u' : Visit σ κ} {e : Event} (h : FollowsBy b o v e u)
    (h' : FollowsBy b o v e u') : u = u' := by
  obtain ⟨leads, -, key⟩ := h
  obtain ⟨leads', -, key'⟩ := h'
  cases leads.symm.trans leads'
  cases key.symm.trans key'
  rfl

theorem FollowsBy.sends {v u : Visit σ κ} {e : Event} (h : FollowsBy b o v e u)
    (tried : Tries b o v.arrival.state e) : Sends b o v.arrival.state e u.arrival.state := by
  obtain ⟨leads, passes, -⟩ := h
  exact ⟨tried, leads, passes⟩

/-- What the events sent preserve holds of the visit that choices lead to. -/
theorem Leads.preserves {P : Visit σ κ → Prop}
    (step : ∀ v e u, Tries b o v.arrival.state e → FollowsBy b o v e u → P v → P u)
    {v w : Visit σ κ} {choices : List Nat} (h : Leads b o v choices w) (here : P v) : P w := by
  induction choices generalizing v with
  | nil =>
    cases h
    exact here
  | cons i choices ih =>
    obtain ⟨events, e, u, tried, at_i, follows, rest⟩ := h
    exact ih rest (step v e u ⟨events, tried, List.mem_of_getElem? at_i⟩ follows here)

theorem Leads.onRoute_suffix {v w : Visit σ κ} {choices : List Nat} (h : Leads b o v choices w) :
    v.onRoute <:+ w.onRoute := by
  refine h.preserves (P := fun u => v.onRoute <:+ u.onRoute) ?_ List.suffix_rfl
  intro u e u' _ follows suffix
  cases follows
  exact suffix.trans (List.suffix_cons _ _)

theorem Leads.nodup_of_nodup {v w : Visit σ κ} {choices : List Nat} (h : Leads b o v choices w)
    (distinct : w.onRoute.Nodup) : v.onRoute.Nodup := distinct.sublist h.onRoute_suffix.sublist

/-! ## Routes by way of one event, and of all -/

/-- What `InPreorder` says, of the routes that go by way of the events of a list; `place` is the place
of its first event among those tried. -/
def ByWayOf (b : Behavior σ κ) (o : Options σ κ) (v : Visit σ κ) (place : Nat) (events : List Event)
    (table : List (List Nat × Visit σ κ)) : Prop :=
  (table.map Prod.fst).Pairwise (List.Lex (· < ·)) ∧
    ∀ choices w, (choices, w) ∈ table ↔ ∃ i e u rest, events[i]? = some e ∧ FollowsBy b o v e u ∧
      choices = (place + i) :: rest ∧ Leads b o u rest w ∧ w.onRoute.Nodup

theorem ByWayOf.cons {v : Visit σ κ} {place : Nat} {e : Event} {events : List Event}
    {first rest : List (List Nat × Visit σ κ)} (h : ByWayOf b o v place [e] first)
    (h' : ByWayOf b o v (place + 1) events rest) : ByWayOf b o v place (e :: events) (first ++ rest) := by
  constructor
  · rw [List.map_append, List.pairwise_append]
    refine ⟨h.1, h'.1, ?_⟩
    intro choices hc choices' hc'
    obtain ⟨⟨_, w⟩, mem, rfl⟩ := List.mem_map.1 hc
    obtain ⟨⟨_, w'⟩, mem', rfl⟩ := List.mem_map.1 hc'
    obtain ⟨i, _, _, _, at_i, _, rfl, _⟩ := (h.2 _ _).1 mem
    obtain ⟨j, -, -, -, -, -, rfl, -⟩ := (h'.2 _ _).1 mem'
    have only : i < [e].length := (List.getElem?_eq_some_iff.1 at_i).1
    rw [List.length_singleton] at only
    exact .rel (by omega)
  · intro choices w
    rw [List.mem_append, h.2, h'.2]
    constructor
    · rintro (⟨i, e', u, rest, at_i, follows, rfl, leads⟩ | ⟨i, e', u, rest, at_i, follows, rfl, leads⟩)
      · obtain rfl : i = 0 := by simpa using (List.getElem?_eq_some_iff.1 at_i).1
        exact ⟨0, e', u, rest, at_i, follows, rfl, leads⟩
      · exact ⟨i + 1, e', u, rest, at_i, follows, by rw [Nat.add_right_comm, Nat.add_assoc], leads⟩
    · rintro ⟨i, e', u, rest, at_i, follows, rfl, leads⟩
      cases i with
      | zero => exact .inl ⟨0, e', u, rest, at_i, follows, rfl, leads⟩
      | succ i =>
        exact .inr ⟨i, e', u, rest, at_i, follows, by rw [Nat.add_right_comm, Nat.add_assoc], leads⟩

theorem byWayOf_nil (v : Visit σ κ) (place : Nat) : ByWayOf b o v place [] [] :=
  ⟨.nil, by simp⟩

section

variable [KeyType κ] [LawfulKeyType κ] {explore : Visit σ κ → Except Fault (List (Visit σ κ))}

/-- Where the exploration from every visit is in pre-order, so is what is explored by way of one
event. -/
theorem exists_byWayOf_singleton (place : Nat) {v : Visit σ κ} {e : Event} {part : List (Visit σ κ)}
    (below : ∀ u us, u.onRoute.Nodup → explore u = .ok us → InPreorder b o u us)
    (distinct : v.onRoute.Nodup) (h : exploredBy b o explore v e = .ok part) :
    ∃ table, table.map Prod.snd = part ∧ ByWayOf b o v place [e] table := by
  obtain ⟨t, leads, rest⟩ := exploredBy_eq_ok_iff.1 h
  obtain ⟨fails, rfl⟩ | ⟨passes, k, key, ⟨met, rfl⟩ | ⟨new, run⟩⟩ := rest
  · -- No visit follows: the filter rejects the state.
    refine ⟨[], rfl, .nil, fun choices w => ⟨by simp, ?_⟩⟩
    rintro ⟨i, e', u, rest, at_i, ⟨leads', passes, -⟩, -⟩
    obtain rfl : i = 0 := by simpa using (List.getElem?_eq_some_iff.1 at_i).1
    cases at_i
    cases leads.symm.trans leads'
    cases fails.symm.trans passes
  · -- A visit follows, but its node is on the route, and so are those of all routes that go on.
    refine ⟨[], rfl, .nil, fun choices w => ⟨by simp, ?_⟩⟩
    rintro ⟨i, e', u, rest, at_i, follows, -, leads', nodup⟩
    obtain rfl : i = 0 := by simpa using (List.getElem?_eq_some_iff.1 at_i).1
    cases at_i
    cases follows.unique (.toward leads passes key)
    have here : (k :: v.onRoute).Nodup := leads'.nodup_of_nodup nodup
    exact absurd met (List.nodup_cons.1 here).1
  · obtain ⟨table, rfl, sorted, members⟩ := below _ _ (List.nodup_cons.2 ⟨new, distinct⟩) run
    refine ⟨table.map fun entry => (place :: entry.1, entry.2), by simp, ?_, ?_⟩
    · rw [List.map_map, List.pairwise_map]
      rw [List.pairwise_map] at sorted
      exact sorted.imp .cons
    · intro choices w
      rw [List.mem_map]
      constructor
      · rintro ⟨⟨rest, w'⟩, mem, eq⟩
        cases eq
        exact ⟨0, e, _, rest, rfl, .toward leads passes key, rfl, (members _ _).1 mem⟩
      · rintro ⟨i, e', u, rest, at_i, follows, rfl, leads'⟩
        obtain rfl : i = 0 := by simpa using (List.getElem?_eq_some_iff.1 at_i).1
        cases at_i
        cases follows.unique (.toward leads passes key)
        exact ⟨(rest, w), (members _ _).2 leads', rfl⟩

theorem exists_byWayOf (place : Nat) {v : Visit σ κ} {events : List Event}
    {parts : List (List (Visit σ κ))}
    (below : ∀ u us, u.onRoute.Nodup → explore u = .ok us → InPreorder b o u us)
    (distinct : v.onRoute.Nodup)
    (h : List.Forall₂ (fun e part => exploredBy b o explore v e = .ok part) events parts) :
    ∃ table, table.map Prod.snd = parts.flatten ∧ ByWayOf b o v place events table := by
  induction h generalizing place with
  | nil => exact ⟨[], rfl, byWayOf_nil v place⟩
  | cons head _ ih =>
    obtain ⟨first, eq, hfirst⟩ := exists_byWayOf_singleton place below distinct head
    obtain ⟨rest, eq', hrest⟩ := ih (place + 1)
    exact ⟨first ++ rest, by rw [List.map_append, eq, eq', List.flatten_cons], hfirst.cons hrest⟩

theorem explored_inPreorder {depth : Nat} {v : Visit σ κ} {vs : List (Visit σ κ)}
    (distinct : v.onRoute.Nodup) (h : explored b o depth v = .ok vs) : InPreorder b o v vs := by
  induction depth generalizing v vs with
  | zero => cases h
  | succ depth ih =>
    obtain ⟨events, parts, tried, made, rfl⟩ := explored_succ_eq_ok_iff.1 h
    obtain ⟨table, eq, sorted, members⟩ :=
      exists_byWayOf 0 (fun u us distinct run => ih distinct run) distinct made
    refine ⟨([], v) :: table, by rw [List.map_cons, eq], ?_, ?_⟩
    · refine List.pairwise_cons.2 ⟨?_, sorted⟩
      intro choices hc
      obtain ⟨⟨_, w⟩, mem, rfl⟩ := List.mem_map.1 hc
      obtain ⟨i, -, -, rest, -, -, rfl, -⟩ := (members _ _).1 mem
      exact .nil
    · intro choices w
      rw [List.mem_cons, members]
      constructor
      · rintro (eq | ⟨i, e, u, rest, at_i, follows, rfl, leads, nodup⟩)
        · cases eq
          exact ⟨rfl, distinct⟩
        · rw [Nat.zero_add]
          exact ⟨⟨events, e, u, tried, at_i, follows, leads⟩, nodup⟩
      · rintro ⟨leads, nodup⟩
        cases choices with
        | nil =>
          cases leads
          exact .inl rfl
        | cons i rest =>
          obtain ⟨events', e, u, tried', at_i, follows, leads⟩ := leads
          cases tried.symm.trans tried'
          exact .inr ⟨i, e, u, rest, at_i, follows, by rw [Nat.zero_add], leads, nodup⟩

end

end StateWalk.Search
