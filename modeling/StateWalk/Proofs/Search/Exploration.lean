import StateWalk.Proofs.Search.Admitted
import StateWalk.Search.Simple

/-!
# The stack of a depth-first search is a recursion

`explored` is the search as a recursion: a visit, and then, one event after the other, all that is
explored from the states that it enters. `simpleVisits_eq_ok_iff` says that the visits which the search
makes with its stack are those of the recursion, in the same order, whenever the recursion ends and the
visits are not more than allowed.
-/

namespace StateWalk.Search

open Outcome

variable {σ κ : Type} {b : Behavior σ κ} {o : Options σ κ}

namespace Visit

/-- The visit of the initial state, whose node has this key. -/
def start (b : Behavior σ κ) (key : κ) : Visit σ κ := ⟨key, ⟨b.initial, []⟩, [key]⟩

/-- The visit of a state that an event sent in the state of this visit leads to. -/
def toward (v : Visit σ κ) (e : Event) (t : σ) (key : κ) : Visit σ κ :=
  ⟨key, ⟨t, ⟨v.arrival.state, e⟩ :: v.arrival.trail⟩, key :: v.onRoute⟩

@[simp]
theorem steps_toward (v : Visit σ κ) (e : Event) (t : σ) (key : κ) :
    (v.toward e t key).arrival.steps = v.arrival.steps ++ [⟨v.arrival.state, e⟩] := List.reverse_cons

end Visit

variable [KeyType κ]

/-- All that is explored by way of one event: nothing if the state that it leads to fails the filter,
and nothing if the route has met that state's node. -/
def exploredBy (b : Behavior σ κ) (o : Options σ κ)
    (explore : Visit σ κ → Except Fault (List (Visit σ κ))) (v : Visit σ κ) (e : Event) :
    Except Fault (List (Visit σ κ)) := do
  let next ← b.transition v.arrival.state e
  if ← o.admits next then
    let key ← o.stateKey next (some e)
    if KeyType.isAmong v.onRoute key then return [] else explore (v.toward e next key)
  else return []

/-- A visit, and then all that is explored by way of each of the events tried, in order; routes from
the visit have fewer than `depth` steps. -/
def explored (b : Behavior σ κ) (o : Options σ κ) :
    (depth : Nat) → Visit σ κ → Except Fault (List (Visit σ κ))
  | 0, _ => .error .unfinished
  | depth + 1, v => do
    let events ← eventsAt b o v.arrival.state
    let parts ← events.mapM (exploredBy b o (explored b o depth) v)
    return v :: parts.flatten

theorem explored_succ_eq_ok_iff {depth : Nat} {v : Visit σ κ} {vs : List (Visit σ κ)} :
    explored b o (depth + 1) v = .ok vs ↔ ∃ events parts, eventsAt b o v.arrival.state = .ok events ∧
      List.Forall₂ (fun e part => exploredBy b o (explored b o depth) v e = .ok part) events parts ∧
      vs = v :: parts.flatten := by
  simp only [explored, bind_eq_ok_iff, mapM_eq_ok_iff_forall₂]
  constructor
  · rintro ⟨events, tried, parts, made, eq⟩
    cases eq
    exact ⟨events, parts, tried, made, rfl⟩
  · rintro ⟨events, parts, tried, made, rfl⟩
    exact ⟨events, tried, parts, made, rfl⟩

/-- A stack that makes each visit of a list with its part makes the whole list with its parts. -/
theorem walk_append_of_forall₂ {us : List (Visit σ κ)} {parts : List (List (Visit σ κ))}
    (h : List.Forall₂ (fun u part => ∀ budget visited stack,
      walk b o (budget + part.length) visited (u :: stack) = walk b o budget (visited ++ part) stack)
        us parts)
    (budget : Nat) (visited stack : List (Visit σ κ)) :
    walk b o (budget + parts.flatten.length) visited (us ++ stack) =
      walk b o budget (visited ++ parts.flatten) stack := by
  induction h generalizing budget visited with
  | nil => simp
  | @cons u part us parts head _ ih =>
    calc walk b o (budget + (part :: parts).flatten.length) visited (u :: us ++ stack)
        = walk b o (budget + parts.flatten.length + part.length) visited (u :: (us ++ stack)) := by
          rw [List.flatten_cons, List.length_append, List.cons_append]
          congr 1
          omega
      _ = walk b o (budget + parts.flatten.length) (visited ++ part) (us ++ stack) := head _ _ _
      _ = walk b o budget (visited ++ part ++ parts.flatten) stack := ih _ _
      _ = walk b o budget (visited ++ (part :: parts).flatten) stack := by
          rw [List.flatten_cons, List.append_assoc]

section

variable [LawfulKeyType κ]

/-- What becomes of one event: the filter rejects the state, or the route has met its node, or all is
explored from there. -/
theorem exploredBy_eq_ok_iff {explore : Visit σ κ → Except Fault (List (Visit σ κ))} {v : Visit σ κ}
    {e : Event} {vs : List (Visit σ κ)} :
    exploredBy b o explore v e = .ok vs ↔ ∃ t, b.transition v.arrival.state e = .ok t ∧
      (o.admits t = .ok false ∧ vs = [] ∨
        o.admits t = .ok true ∧ ∃ k, o.stateKey t (some e) = .ok k ∧
          (k ∈ v.onRoute ∧ vs = [] ∨ k ∉ v.onRoute ∧ explore (v.toward e t k) = .ok vs)) := by
  simp only [exploredBy, bind_eq_ok_iff]
  constructor
  · rintro ⟨t, leads, admits, passes, rest⟩
    refine ⟨t, leads, ?_⟩
    cases admits with
    | false => exact .inl ⟨passes, by cases rest; rfl⟩
    | true =>
      simp only [if_true, bind_eq_ok_iff] at rest
      obtain ⟨k, key, rest⟩ := rest
      refine .inr ⟨passes, k, key, ?_⟩
      split at rest
      next met => exact .inl ⟨(KeyType.isAmong_iff _ _).1 met, by cases rest; rfl⟩
      next new => exact .inr ⟨fun met => new ((KeyType.isAmong_iff _ _).2 met), rest⟩
  · rintro ⟨t, leads, ⟨passes, rfl⟩ | ⟨passes, k, key, rest⟩⟩
    · exact ⟨t, leads, false, passes, rfl⟩
    · refine ⟨t, leads, true, passes, ?_⟩
      simp only [if_true, bind_eq_ok_iff]
      refine ⟨k, key, ?_⟩
      obtain ⟨met, rfl⟩ | ⟨new, run⟩ := rest
      · rw [if_pos ((KeyType.isAmong_iff _ _).2 met)]
        rfl
      · rw [if_neg fun met => new ((KeyType.isAmong_iff _ _).1 met)]
        exact run

theorem Visit.enters_eq_ok_iff {v : Visit σ κ} {k : κ} {entered : Bool} :
    v.enters k = .ok entered ↔ (entered = true ↔ k ∉ v.onRoute) := by
  rw [Visit.enters_eq, ← KeyType.isAmong_iff v.onRoute k]
  cases entered <;> cases KeyType.isAmong v.onRoute k <;> simp

/-- By way of one event nothing is explored, because it has no successor, or all that is explored from
its successor. -/
theorem exploredBy_eq_ok_iff_successor {explore : Visit σ κ → Except Fault (List (Visit σ κ))}
    {v : Visit σ κ} {e : Event} {vs : List (Visit σ κ)} :
    exploredBy b o explore v e = .ok vs ↔ ∃ r, successor? b o v.enters v.arrival.state e = .ok r ∧
      (r = none ∧ vs = [] ∨ ∃ x, r = some x ∧ explore (v.toward x.event x.state x.key) = .ok vs) := by
  simp only [exploredBy_eq_ok_iff, successor?_eq_ok_iff, Visit.enters_eq_ok_iff]
  constructor
  · rintro ⟨t, leads, ⟨passes, rfl⟩ | ⟨passes, k, key, ⟨met, rfl⟩ | ⟨new, run⟩⟩⟩
    · exact ⟨none, ⟨t, leads, .inl ⟨passes, rfl⟩⟩, .inl ⟨rfl, rfl⟩⟩
    · exact ⟨none, ⟨t, leads, .inr ⟨passes, k, key, .inl ⟨by simpa using met, rfl⟩⟩⟩, .inl ⟨rfl, rfl⟩⟩
    · exact ⟨_, ⟨t, leads, .inr ⟨passes, k, key, .inr ⟨by simpa using new, rfl⟩⟩⟩, .inr ⟨_, rfl, run⟩⟩
  · rintro ⟨r, ⟨t, leads, ⟨passes, rfl⟩ | ⟨passes, k, key, ⟨met, rfl⟩ | ⟨new, rfl⟩⟩⟩, rest⟩
    · obtain ⟨-, rfl⟩ | ⟨x, eq, -⟩ := rest
      · exact ⟨t, leads, .inl ⟨passes, rfl⟩⟩
      · cases eq
    · obtain ⟨-, rfl⟩ | ⟨x, eq, -⟩ := rest
      · exact ⟨t, leads, .inr ⟨passes, k, key, .inl ⟨by simpa using met, rfl⟩⟩⟩
      · cases eq
    · obtain ⟨eq, -⟩ | ⟨x, eq, run⟩ := rest
      · cases eq
      · cases eq
        exact ⟨t, leads, .inr ⟨passes, k, key, .inr ⟨by simpa using new, run⟩⟩⟩

/-- What is explored by way of all events is what is explored from all successors. -/
theorem exists_parts_iff {explore : Visit σ κ → Except Fault (List (Visit σ κ))} {v : Visit σ κ}
    {events : List Event} {vs : List (Visit σ κ)} :
    (∃ parts, List.Forall₂ (fun e part => exploredBy b o explore v e = .ok part) events parts ∧
        vs = parts.flatten) ↔
      ∃ rs parts, List.Forall₂ (fun e r => successor? b o v.enters v.arrival.state e = .ok r) events rs ∧
        List.Forall₂ (fun u part => explore u = .ok part) (v.next (rs.flatMap Option.toList)) parts ∧
        vs = parts.flatten := by
  induction events generalizing vs with
  | nil => simp [Visit.next]
  | cons e events ih =>
    constructor
    · rintro ⟨parts, made, rfl⟩
      cases made with
      | @cons _ part _ parts head tail =>
        obtain ⟨rs, parts', found, made, eq⟩ := ih.1 ⟨parts, tail, rfl⟩
        obtain ⟨r, hr, ⟨rfl, rfl⟩ | ⟨x, rfl, run⟩⟩ := exploredBy_eq_ok_iff_successor.1 head
        · exact ⟨none :: rs, parts', .cons hr found, made, by simpa using eq⟩
        · exact ⟨some x :: rs, part :: parts', .cons hr found, .cons run made, by simpa using eq⟩
    · rintro ⟨rs, parts, found, made, rfl⟩
      cases found with
      | @cons _ r _ rs head tail =>
        cases r with
        | none =>
          obtain ⟨parts', made', eq⟩ := ih.2 ⟨rs, parts, tail, made, rfl⟩
          exact ⟨[] :: parts', .cons (exploredBy_eq_ok_iff_successor.2 ⟨_, head, .inl ⟨rfl, rfl⟩⟩) made',
            by simpa using eq⟩
        | some x =>
          cases made with
          | @cons _ part _ parts run made =>
            obtain ⟨parts', made', eq⟩ := ih.2 ⟨rs, parts, tail, made, rfl⟩
            exact ⟨part :: parts',
              .cons (exploredBy_eq_ok_iff_successor.2 ⟨_, head, .inr ⟨x, rfl, run⟩⟩) made',
              by simpa using eq⟩

/-- The recursion in terms of the successors that the search computes. -/
theorem explored_succ_iff_successors {depth : Nat} {v : Visit σ κ} {vs : List (Visit σ κ)} :
    explored b o (depth + 1) v = .ok vs ↔ ∃ found parts,
      successors b o v.enters v.arrival.state = .ok found ∧
      List.Forall₂ (fun u part => explored b o depth u = .ok part) (v.next found) parts ∧
      vs = v :: parts.flatten := by
  rw [explored_succ_eq_ok_iff]
  constructor
  · rintro ⟨events, parts, tried, made, rfl⟩
    obtain ⟨rs, parts', found, made', eq⟩ := exists_parts_iff.1 ⟨parts, made, rfl⟩
    exact ⟨_, parts', successors_eq_ok_iff.2 ⟨events, rs, tried, found, rfl⟩, made', by rw [eq]⟩
  · rintro ⟨found, parts, computed, made, rfl⟩
    obtain ⟨events, rs, tried, found, rfl⟩ := successors_eq_ok_iff.1 computed
    obtain ⟨parts', made', eq⟩ := exists_parts_iff.2 ⟨rs, parts, found, made, rfl⟩
    exact ⟨events, parts', tried, made', by rw [eq]⟩

/-- A deeper recursion explores the same. -/
theorem explored_succ_of_explored {depth : Nat} {v : Visit σ κ} {vs : List (Visit σ κ)}
    (h : explored b o depth v = .ok vs) : explored b o (depth + 1) v = .ok vs := by
  induction depth generalizing v vs with
  | zero => cases h
  | succ depth ih =>
    obtain ⟨found, parts, computed, made, rfl⟩ := explored_succ_iff_successors.1 h
    exact explored_succ_iff_successors.2 ⟨found, parts, computed, made.imp fun _ _ => ih, rfl⟩

/-- The stack makes a visit with all that is explored from it, and then goes on as if the visit had not
been there. -/
theorem walk_of_explored {depth : Nat} {v : Visit σ κ} {vs : List (Visit σ κ)}
    (h : explored b o depth v = .ok vs) (budget : Nat) (visited stack : List (Visit σ κ)) :
    walk b o (budget + vs.length) visited (v :: stack) = walk b o budget (visited ++ vs) stack := by
  induction depth generalizing v vs budget visited stack with
  | zero => cases h
  | succ depth ih =>
    obtain ⟨found, parts, computed, made, rfl⟩ := explored_succ_iff_successors.1 h
    have below := walk_append_of_forall₂ (made.imp fun _ _ => ih) budget (visited ++ [v]) stack
    calc walk b o (budget + (v :: parts.flatten).length) visited (v :: stack)
        = (do
            let found ← successors b o v.enters v.arrival.state
            walk b o (budget + parts.flatten.length) (visited ++ [v]) (v.next found ++ stack)) := rfl
      _ = walk b o (budget + parts.flatten.length) (visited ++ [v]) (v.next found ++ stack) := by
          rw [computed]
          rfl
      _ = walk b o budget (visited ++ (v :: parts.flatten)) stack := by
          rw [below, List.append_assoc, List.singleton_append]

/-- A stack that is emptied holds visits from which all can be explored. -/
theorem explored_of_walk {budget : Nat} {visited stack all : List (Visit σ κ)}
    (run : walk b o budget visited stack = .ok all) :
    ∃ depth parts, List.Forall₂ (fun u part => explored b o depth u = .ok part) stack parts ∧
      all = visited ++ parts.flatten ∧ parts.flatten.length ≤ budget := by
  induction budget generalizing visited stack with
  | zero =>
    cases stack with
    | nil =>
      cases run
      exact ⟨0, [], .nil, by simp, Nat.le_refl _⟩
    | cons v stack => cases run
  | succ budget ih =>
    cases stack with
    | nil =>
      cases run
      exact ⟨0, [], .nil, by simp, Nat.zero_le _⟩
    | cons v stack =>
      obtain ⟨found, computed, run⟩ := bind_eq_ok_iff.1 run
      obtain ⟨depth, parts, made, rfl, short⟩ := ih run
      obtain ⟨ps, qs, rfl, below, rest⟩ := forall₂_append_left made
      have here : explored b o (depth + 1) v = .ok (v :: ps.flatten) :=
        explored_succ_iff_successors.2 ⟨found, ps, computed, below, rfl⟩
      refine ⟨depth + 1, (v :: ps.flatten) :: qs, .cons here ?_, ?_, ?_⟩
      · exact rest.imp fun _ _ => explored_succ_of_explored
      · simp
      · rw [List.flatten_append, List.length_append] at short
        rw [List.flatten_cons, List.length_append, List.length_cons]
        omega

/-- The search makes the visits of the recursion, if it ends and they are not more than allowed. -/
theorem simpleVisits_eq_ok_iff {visits : List (Visit σ κ)} :
    simpleVisits b o = .ok visits ↔ ∃ key depth, o.stateKey b.initial none = .ok key ∧
      explored b o depth (Visit.start b key) = .ok visits ∧ visits.length ≤ o.budget := by
  simp only [simpleVisits, bind_eq_ok_iff, nodeKey_eq_stateKey]
  constructor
  · rintro ⟨key, hkey, run⟩
    obtain ⟨depth, parts, made, eq, short⟩ := explored_of_walk run
    cases made with
    | cons head tail =>
      cases tail
      obtain rfl : visits = _ := by simpa using eq
      exact ⟨key, depth, hkey, head, by simpa using short⟩
  · rintro ⟨key, depth, hkey, run, short⟩
    refine ⟨key, hkey, ?_⟩
    obtain ⟨budget, eq⟩ := Nat.exists_eq_add_of_le' short
    calc walk b o o.budget [] [Visit.start b key]
        = walk b o (budget + visits.length) [] [Visit.start b key] := by rw [eq]
      _ = walk b o budget ([] ++ visits) [] := walk_of_explored run budget [] []
      _ = .ok visits := by cases budget <;> rfl

end

end StateWalk.Search
