import Mathlib.Data.Set.Card
import StateWalk.Proofs.Search.Responses
import StateWalk.Proofs.Search.SameGraph
import StateWalk.Proofs.Search.ShortestPlans
import StateWalk.Proofs.Worklist

/-!
# The limit of a search is all or nothing

Both searches are worklists. So a limit changes nothing where the search without it ends with as many
items as are allowed, or fewer, and otherwise the search ends by reporting the limit: where it would have
ended later, and where it would not have ended at all (`AllOrNothing`).

The items are counted as the graph has them: the breadth-first search has one for every node that it
finds, the depth-first search one for every route that meets no node twice.
-/

namespace StateWalk.Search

open Outcome

variable {σ κ : Type} {b : Behavior σ κ} {o : Options σ κ}

namespace Options

/-- The options with this limit. -/
def limited (o : Options σ κ) (limit : Int) : Options σ κ := { o with limit := some limit }

/-- The options without a limit; a search may take this many items before it is given up. -/
def unlimited (o : Options σ κ) (fuel : Nat) : Options σ κ := { o with limit := none, fuel := fuel }

theorem sameGraph_limited (o : Options σ κ) (limit : Int) : SameGraph o (o.limited limit) :=
  ⟨rfl, rfl, rfl⟩

theorem sameGraph_unlimited (o : Options σ κ) (fuel : Nat) : SameGraph o (o.unlimited fuel) :=
  ⟨rfl, rfl, rfl⟩

end Options

/-- A call of `search` with the limit, compared with the calls without one. The search without a limit ends
if it counts some number of items. Then its outcome is the same whatever steps it is granted, once they
are enough, and it is that of the call with the limit unless the items are more than the limit. -/
structure AllOrNothing (search : Behavior σ κ → Options σ κ → Except Fault (List (Plan σ)))
    (b : Behavior σ κ) (o : Options σ κ) (limit : Int) (counts : Nat → Prop) : Prop where
  ends : ∀ n, counts n → ∃ outcome,
    (∃ enough, ∀ fuel, enough ≤ fuel → search b (o.unlimited fuel) = outcome) ∧
    (TextTypes b o → ∃ plans, outcome = .ok plans) ∧
    search b (o.limited limit) = if (n : Int) ≤ limit then outcome else .error (.limitExceeded limit)
  endless : (¬ ∃ n, counts n) → search b (o.limited limit) = .error (.limitExceeded limit)

section

variable [KeyType κ]

/-- Without a limit the breadth-first search ends, and it has found so many nodes. -/
def FindsNodes (b : Behavior σ κ) (o : Options σ κ) (n : Nat) : Prop :=
  ∃ fuel routes, shortestRoutes b (o.unlimited fuel) = .ok routes ∧
    {k | ∃ r ∈ routes, r.key = k}.encard = n

/-- Without a limit the depth-first search ends, and there are so many routes that meet no node twice. -/
def FollowsRoutes (b : Behavior σ κ) (o : Options σ κ) (n : Nat) : Prop :=
  ∃ fuel visits, simpleVisits b (o.unlimited fuel) = .ok visits ∧
    {choices | ∃ v, SimpleRoute b o choices v}.encard = n

/-! ## Both searches are worklists -/

/-- What expanding a route makes of the frontier. -/
def expandRoute (b : Behavior σ κ) (o : Options σ κ) (expanded : List (Route σ κ)) (r : Route σ κ)
    (frontier : List (Route σ κ)) : Except Fault (List (Route σ κ)) := do
  let found ← successors b o entersFiled r.first.state
  return found.foldl (discover o r.first (expanded ++ [r])) frontier

/-- What making a visit makes of the stack. -/
def expandVisit (b : Behavior σ κ) (o : Options σ κ) (_ : List (Visit σ κ)) (v : Visit σ κ)
    (stack : List (Visit σ κ)) : Except Fault (List (Visit σ κ)) := do
  let found ← successors b o v.enters v.arrival.state
  return v.next found ++ stack

theorem explore_eq_worklist (b : Behavior σ κ) (o : Options σ κ) (budget : Nat)
    (expanded frontier : List (Route σ κ)) :
    explore b o budget expanded frontier =
      worklist (expandRoute b o) o.exhausted budget expanded frontier := by
  induction budget generalizing expanded frontier with
  | zero => cases frontier <;> rfl
  | succ budget ih =>
    cases frontier with
    | nil => rfl
    | cons r frontier =>
      simp only [explore, worklist, expandRoute, bind_assoc, ih]
      rfl

theorem walk_eq_worklist (b : Behavior σ κ) (o : Options σ κ) (budget : Nat)
    (visited stack : List (Visit σ κ)) :
    walk b o budget visited stack = worklist (expandVisit b o) o.exhausted budget visited stack := by
  induction budget generalizing visited stack with
  | zero => cases stack <;> rfl
  | succ budget ih =>
    cases stack with
    | nil => rfl
    | cons v stack =>
      simp only [walk, worklist, expandVisit, bind_assoc, ih]
      rfl

theorem expandRoute_eq {o' : Options σ κ} (same : SameGraph o o') (ties : o'.keepTies = o.keepTies)
    (b : Behavior σ κ) : expandRoute b o' = expandRoute b o := by
  funext expanded r frontier
  have discovers : discover o' r.first (expanded ++ [r]) = discover o r.first (expanded ++ [r]) := by
    funext frontier x
    rw [discover, discover, ties]
  rw [expandRoute, expandRoute, same.successors_eq, discovers]

theorem expandVisit_eq {o' : Options σ κ} (same : SameGraph o o') (b : Behavior σ κ) :
    expandVisit b o' = expandVisit b o := by
  funext visited v stack
  rw [expandVisit, expandVisit, same.successors_eq]

section

variable [LawfulKeyType κ] {k : κ}

theorem shortestRoutes_eq_worklist {o' : Options σ κ} (same : SameGraph o o')
    (ties : o'.keepTies = o.keepTies) (initial : o.stateKey b.initial none = .ok k) :
    shortestRoutes b o' =
      worklist (expandRoute b o) o'.exhausted o'.budget [] [⟨k, ⟨b.initial, []⟩, []⟩] := by
  rw [← expandRoute_eq same ties, ← explore_eq_worklist, shortestRoutes, same.nodeKey_eq,
    nodeKey_eq_stateKey, initial]
  rfl

theorem simpleVisits_eq_worklist {o' : Options σ κ} (same : SameGraph o o')
    (initial : o.stateKey b.initial none = .ok k) :
    simpleVisits b o' = worklist (expandVisit b o) o'.exhausted o'.budget [] [Visit.start b k] := by
  rw [← expandVisit_eq same, ← walk_eq_worklist, simpleVisits, same.nodeKey_eq, nodeKey_eq_stateKey,
    initial]
  rfl

/-! ## What is counted -/

theorem encard_setOf_mem {α : Type} {l : List α} (distinct : l.Nodup) :
    {a | a ∈ l}.encard = l.length := by
  classical
  rw [← List.coe_toFinset, Set.encard_coe_eq_coe_finsetCard, List.toFinset_card_of_nodup distinct]

/-- The routes of a search that ends are as many as the nodes that it has found. -/
theorem encard_nodes {routes : List (Route σ κ)} (h : shortestRoutes b o = .ok routes) :
    {k | ∃ r ∈ routes, r.key = k}.encard = routes.length := by
  have table := (progress_of_shortestRoutes h).table
  rw [List.append_nil] at table
  have distinct : (routes.map Route.key).Nodup := List.pairwise_map.2 table.distinct
  have nodes : {k | ∃ r ∈ routes, r.key = k} = {k | k ∈ routes.map Route.key} := by
    ext k
    exact List.mem_map.symm
  rw [nodes, encard_setOf_mem distinct, List.length_map]

/-- The visits of a search that ends are as many as the routes that meet no node twice. -/
theorem encard_simpleRoutes {o' : Options σ κ} (same : SameGraph o o') {visits : List (Visit σ κ)}
    (h : simpleVisits b o' = .ok visits) :
    {choices | ∃ v, SimpleRoute b o choices v}.encard = visits.length := by
  obtain ⟨table, rfl, sorted, members⟩ := exists_table h
  have members : ∀ choices v, (choices, v) ∈ table ↔ SimpleRoute b o choices v := fun choices v =>
    (members choices v).trans ⟨same.symm.simpleRoute, same.simpleRoute⟩
  have distinct : (table.map Prod.fst).Nodup := by
    rw [List.Nodup, List.pairwise_map]
    exact sorted.imp fun less => (less.imp (fun _ _ => Nat.ne_of_lt) _ _).to_ne
  have routes : {choices | ∃ v, SimpleRoute b o choices v} = {choices | choices ∈ table.map Prod.fst} := by
    ext choices
    simp only [← members, Set.mem_ofPred_eq, List.mem_map, Prod.exists, exists_and_right, exists_eq_right]
  rw [routes, encard_setOf_mem distinct, List.length_map, List.length_map]

end

end

/-- What is said of a limit holds of every search that makes its plans from a worklist, where no expansion
fails and plans can be made of all items. -/
theorem allOrNothing_of_worklist {τ : Type}
    {search : Behavior σ κ → Options σ κ → Except Fault (List (Plan σ))}
    {limit : Int} {counts : Nat → Prop} {expand : List τ → τ → List τ → Except Fault (List τ)} {start : τ}
    (plansOf : List τ → Except Fault (List (Plan σ))) (Inv : List τ → List τ → Prop)
    (unlimited : ∀ fuel, search b (o.unlimited fuel) =
      worklist expand .unfinished fuel [] [start] >>= plansOf)
    (limited : search b (o.limited limit) =
      worklist expand (.limitExceeded limit) limit.toNat [] [start] >>= plansOf)
    (counted : ∀ n, counts n ↔
      ∃ fuel items, worklist expand .unfinished fuel [] [start] = .ok items ∧ items.length = n)
    (planned : TextTypes b o → ∀ fuel items,
      worklist expand .unfinished fuel [] [start] = .ok items → ∃ plans, plansOf items = .ok plans)
    (step : ∀ done x pending, Inv done (x :: pending) →
      ∃ rest, expand done x pending = .ok rest ∧ Inv (done ++ [x]) rest)
    (initial : Inv [] [start]) : AllOrNothing search b o limit counts where
  ends := by
    intro n counts_n
    obtain ⟨fuel, items, run, rfl⟩ := (counted n).1 counts_n
    refine ⟨plansOf items, ⟨fuel, fun fuel' more => ?_⟩, fun texts => planned texts fuel items run, ?_⟩
    · rw [unlimited, worklist_of_le run .unfinished more]
      rfl
    · rw [limited, worklist_limited run]
      split <;> rfl
  endless := by
    intro uncounted
    obtain ⟨items, run⟩ | spent :=
      worklist_eq_ok_or_error step initial (.limitExceeded limit) limit.toNat
    · have ends := worklist_of_le run .unfinished (Nat.le_refl _)
      exact absurd ⟨items.length, (counted _).2 ⟨_, items, ends, rfl⟩⟩ uncounted
    · rw [limited, spent]
      rfl

section

variable [KeyType κ] [LawfulKeyType κ]

/-! ## The shortest plans -/

theorem Responds.exists_expandRoute (h : Responds b o) {expanded frontier : List (Route σ κ)}
    {r : Route σ κ} (progress : Progress b o expanded (r :: frontier)) :
    ∃ rest, expandRoute b o expanded r frontier = .ok rest ∧ Progress b o (expanded ++ [r]) rest := by
  have held := progress.table.sound r (by simp) r.first List.mem_cons_self
  obtain ⟨found, computed⟩ :=
    h.exists_successors held.admitted fun k => ⟨true, entersFiled_eq k⟩
  exact ⟨_, bind_eq_ok_iff.2 ⟨found, computed, rfl⟩, progress.step computed⟩

theorem Responds.exists_routePlans (h : Responds b o) (texts : TextTypes b o) {o' : Options σ κ}
    (same : SameGraph o o') {routes : List (Route σ κ)} (run : shortestRoutes b o' = .ok routes) :
    ∃ plans, routes.mapM (Route.plan (describer b o)) = .ok plans := by
  have sound := (progress_of_shortestRoutes run).table.sound
  refine exists_mapM_eq_ok fun r hr => exists_planOf (fun a ha => ?_) ?_
  · exact texts.hasTexts (same.symm.arrivesAt (sound r (by simpa using hr) a ha)).admitted
  · exact h.describe (same.symm.arrivesAt (sound r (by simpa using hr) _ List.mem_cons_self)).admitted

theorem findsNodes_iff {k : κ} (initial : o.stateKey b.initial none = .ok k) (n : Nat) :
    FindsNodes b o n ↔ ∃ fuel routes, worklist (expandRoute b o) .unfinished fuel []
      [⟨k, ⟨b.initial, []⟩, []⟩] = .ok routes ∧ routes.length = n := by
  refine exists_congr fun fuel => exists_congr fun routes => ?_
  rw [shortestRoutes_eq_worklist (o.sameGraph_unlimited fuel) rfl initial]
  refine and_congr_right fun run => ?_
  rw [encard_nodes (o := o.unlimited fuel)
    ((shortestRoutes_eq_worklist (o.sameGraph_unlimited fuel) rfl initial).trans run), Nat.cast_inj]

theorem Responds.shortestPlans_allOrNothing (h : Responds b o) (limit : Int) :
    AllOrNothing shortestPlans b o limit (FindsNodes b o) := by
  obtain ⟨k, initial⟩ := h.start
  refine allOrNothing_of_worklist (fun routes => routes.mapM (Route.plan (describer b o)))
    (Progress b o) (fun fuel => ?_) ?_ (findsNodes_iff initial) (fun texts fuel routes run => ?_) ?_
    (Progress.initial initial)
  · rw [shortestPlans, shortestRoutes_eq_worklist (o.sameGraph_unlimited fuel) rfl initial]
    rfl
  · rw [shortestPlans, shortestRoutes_eq_worklist (o.sameGraph_limited limit) rfl initial]
    rfl
  · have same := o.sameGraph_unlimited fuel
    exact h.exists_routePlans texts same ((shortestRoutes_eq_worklist same rfl initial).trans run)
  · exact fun _ _ _ progress => h.exists_expandRoute progress

/-! ## The simple plans -/

theorem Responds.exists_expandVisit (h : Responds b o) {visited stack : List (Visit σ κ)} {v : Visit σ κ}
    (sound : ∀ u ∈ v :: stack, u.arrival.At b o u.key) :
    ∃ rest, expandVisit b o visited v stack = .ok rest ∧ ∀ u ∈ rest, u.arrival.At b o u.key := by
  obtain ⟨here, others⟩ := List.forall_mem_cons.1 sound
  obtain ⟨found, computed⟩ := h.exists_successors here.admitted fun k => ⟨_, v.enters_eq k⟩
  refine ⟨_, bind_eq_ok_iff.2 ⟨found, computed, rfl⟩, fun u hu => ?_⟩
  rcases List.mem_append.1 hu with hu | hu
  · obtain ⟨x, hx, rfl⟩ := List.mem_map.1 hu
    obtain ⟨sent, key, -⟩ := (mem_successors_iff computed).1 hx
    exact .extend here.admitted sent key
  · exact others u hu

theorem Responds.exists_visitPlans (h : Responds b o) (texts : TextTypes b o) {o' : Options σ κ}
    (same : SameGraph o o') {visits : List (Visit σ κ)} (run : simpleVisits b o' = .ok visits) :
    ∃ plans, simplePlansOf (describer b o) (arrivalsByNode visits) = .ok plans := by
  have admitted : ∀ g ∈ arrivalsByNode visits, ∀ a ∈ g.2, Admitted b o a.steps a.state := by
    intro g hg a ha
    rw [(grouped_arrivalsByNode visits).arrivals g hg] at ha
    obtain ⟨v, hv, -, rfl⟩ := mem_arrivalsAt_iff.1 ha
    exact (same.symm.arrivesAt (at_of_mem_simpleVisits run v hv)).admitted
  exact exists_simplePlansOf (fun g hg a ha => texts.hasTexts (admitted g hg a ha))
    fun g hg a ha => h.describe (admitted g hg a ha)

theorem followsRoutes_iff {k : κ} (initial : o.stateKey b.initial none = .ok k) (n : Nat) :
    FollowsRoutes b o n ↔ ∃ fuel visits,
      worklist (expandVisit b o) .unfinished fuel [] [Visit.start b k] = .ok visits ∧
        visits.length = n := by
  refine exists_congr fun fuel => exists_congr fun visits => ?_
  rw [simpleVisits_eq_worklist (o.sameGraph_unlimited fuel) initial]
  refine and_congr_right fun run => ?_
  rw [encard_simpleRoutes (o.sameGraph_unlimited fuel)
    ((simpleVisits_eq_worklist (o.sameGraph_unlimited fuel) initial).trans run), Nat.cast_inj]

theorem Responds.simplePlans_allOrNothing (h : Responds b o) (limit : Int) :
    AllOrNothing simplePlans b o limit (FollowsRoutes b o) := by
  obtain ⟨k, initial⟩ := h.start
  refine allOrNothing_of_worklist
    (fun visits => simplePlansOf (describer b o) (arrivalsByNode visits))
    (fun _ stack => ∀ v ∈ stack, v.arrival.At b o v.key) (fun fuel => ?_) ?_
    (followsRoutes_iff initial) (fun texts fuel visits run => ?_) ?_ ?_
  · rw [simplePlans, simpleVisits_eq_worklist (o.sameGraph_unlimited fuel) initial]
    rfl
  · rw [simplePlans, simpleVisits_eq_worklist (o.sameGraph_limited limit) initial]
    rfl
  · have same := o.sameGraph_unlimited fuel
    exact h.exists_visitPlans texts same ((simpleVisits_eq_worklist same initial).trans run)
  · exact fun _ _ _ sound => h.exists_expandVisit sound
  · exact List.forall_mem_singleton.2 (Arrival.at_initial initial)

/-- **A limit is all or nothing, and exact.** Where nothing fails that the searches ask, a limit of the
number of nodes found, or of the number of routes followed, is the least one that changes nothing. -/
theorem limit_all_or_nothing (h : Responds b o) (limit : Int) :
    AllOrNothing shortestPlans b o limit (FindsNodes b o) ∧
      AllOrNothing simplePlans b o limit (FollowsRoutes b o) :=
  ⟨h.shortestPlans_allOrNothing limit, h.simplePlans_allOrNothing limit⟩

/-! ## The carousel -/

theorem carousel_eventsAt (s : Place × Nat) : eventsAt carousel carouselOptions s =
    .ok [.ofType "step", .ofType "skip", .ofType "step"] := rfl

theorem carousel_responds : Responds carousel carouselOptions where
  start := ⟨_, rfl⟩
  events _ := ⟨_, carousel_eventsAt _⟩
  transition _ _ := ⟨_, rfl⟩
  filter _ _ _ := ⟨_, rfl⟩
  key _ _ := ⟨_, rfl⟩
  describe _ := ⟨_, rfl⟩

theorem carousel_textTypes : TextTypes carousel carouselOptions := by
  rintro steps s e - ⟨es, tried, mem⟩
  cases (carousel_eventsAt s).symm.trans tried
  simp only [List.mem_cons, List.not_mem_nil, or_false] at mem
  obtain rfl | rfl | rfl := mem <;> rfl

/-- The carousel by the number of moves, which has a node for every number. -/
def movesOptions : Options (Place × Nat) String :=
  { carouselOptions with
    stateKey := fun s _ => .ok (String.ofList (List.replicate s.2 '|'))
    filter := none }

theorem moves_responds : Responds carousel movesOptions where
  start := ⟨_, rfl⟩
  events _ := ⟨_, carousel_eventsAt _⟩
  transition _ _ := ⟨_, rfl⟩
  filter _ _ _ := ⟨_, rfl⟩
  key _ _ := ⟨_, rfl⟩
  describe _ := ⟨_, rfl⟩

theorem moves_of_stateKey {s s' : Place × Nat} {e e' : Option Event}
    (h : movesOptions.stateKey s e = movesOptions.stateKey s' e') : s.2 = s'.2 := by
  have same : List.replicate s.2 '|' = List.replicate s'.2 '|' :=
    String.ofList_injective (Except.ok.inj h)
  simpa using congrArg List.length same

theorem moves_nodesDetermine : NodesDetermine carousel movesOptions := by
  intro steps steps' s s' k _ ends _ ends' e t sent
  have same : s.2 = s'.2 := moves_of_stateKey (ends.trans ends'.symm)
  obtain ⟨⟨es, tried, mem⟩, leads, -⟩ := sent
  cases leads
  refine ⟨e, (if skips e then s'.1.next.next else s'.1.next, s'.2 + 1), ⟨⟨es, tried, mem⟩, rfl, rfl⟩, ?_⟩
  rw [← same]
  rfl

theorem exists_admitted_moves (n : Nat) :
    ∃ steps s, Admitted carousel movesOptions steps s ∧ s.2 = n := by
  induction n with
  | zero => exact ⟨[], _, .initial, rfl⟩
  | succ n ih =>
    obtain ⟨steps, s, admitted, moves⟩ := ih
    have tried : Tries carousel movesOptions s (.ofType "step") :=
      ⟨_, carousel_eventsAt s, List.mem_cons_self⟩
    exact ⟨_, _, .send admitted ⟨tried, rfl, rfl⟩, congrArg (· + 1) moves⟩

/-- The search of infinitely many nodes does not end. -/
theorem moves_not_findsNodes : ¬ ∃ n, FindsNodes carousel movesOptions n := by
  rintro ⟨n, fuel, routes, run, count⟩
  have same := movesOptions.sameGraph_unlimited fuel
  have progress := progress_of_shortestRoutes run
  -- Every number of moves has a route, so the routes, which are finitely many, have all of them.
  have every : ∀ m, String.ofList (List.replicate m '|') ∈ routes.map Route.key := by
    intro m
    obtain ⟨steps, s, admitted, rfl⟩ := exists_admitted_moves m
    exact (progress.mem_keys_iff (same.nodesDetermine moves_nodesDetermine) _).2
      ⟨steps, s, same.admitted admitted, rfl⟩
  have injective : Function.Injective fun m => String.ofList (List.replicate m '|') := by
    intro m m' eq
    have same : movesOptions.stateKey (.first, m) none = movesOptions.stateKey (.first, m') none :=
      congrArg Except.ok eq
    exact moves_of_stateKey same
  have infinite := Set.infinite_range_of_injective injective
  refine infinite ((routes.map Route.key).finite_toSet.subset ?_)
  rintro _ ⟨m, rfl⟩
  exact every m

/-- A limit of ten is enough for the four nodes of the carousel, and not for its eleven routes. Where
moves are counted the search goes on until the limit stops it. -/
theorem carousel_limit_all_or_nothing :
    Responds carousel carouselOptions ∧ TextTypes carousel carouselOptions ∧
      FindsNodes carousel carouselOptions 4 ∧ FollowsRoutes carousel carouselOptions 11 ∧
      AllOrNothing shortestPlans carousel carouselOptions 10 (FindsNodes carousel carouselOptions) ∧
      AllOrNothing simplePlans carousel carouselOptions 10 (FollowsRoutes carousel carouselOptions) ∧
      Responds carousel movesOptions ∧
      shortestPlans carousel (movesOptions.limited 10) = .error (.limitExceeded 10) := by
  have nodes : (shortestRoutes carousel (carouselOptions.unlimited 4)).map List.length = .ok 4 := by rfl
  have visits : (simpleVisits carousel (carouselOptions.unlimited 11)).map List.length = .ok 11 := by rfl
  obtain ⟨routes, found, four⟩ := exists_of_map_eq_ok nodes
  obtain ⟨visits, made, eleven⟩ := exists_of_map_eq_ok visits
  have findsNodes : FindsNodes carousel carouselOptions 4 :=
    ⟨4, routes, found, by rw [encard_nodes found, four]⟩
  have followsRoutes : FollowsRoutes carousel carouselOptions 11 :=
    ⟨11, visits, made,
      by rw [encard_simpleRoutes (carouselOptions.sameGraph_unlimited 11) made, eleven]⟩
  obtain ⟨shortest, simple⟩ := limit_all_or_nothing carousel_responds 10
  exact ⟨carousel_responds, carousel_textTypes, findsNodes, followsRoutes, shortest, simple, moves_responds,
    (limit_all_or_nothing moves_responds 10).1.endless moves_not_findsNodes⟩

end

end StateWalk.Search
