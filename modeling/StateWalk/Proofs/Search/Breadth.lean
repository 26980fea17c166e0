import StateWalk.Proofs.Search.Plans

/-!
# The table of a breadth-first search

`Progress` is what holds whenever the search is about to expand its next route: every arrival is by
admitted steps, no node has two routes, routes stand in the order of their depth, no route is deeper by
more than one step than one that waits, and what an expanded route leads to has a route.

`Progress.step` keeps it over one expansion and `Progress.explore` over the whole search, at whose end
nothing waits.
-/

namespace StateWalk.Search

open Outcome

variable {σ κ : Type} {b : Behavior σ κ} {o : Options σ κ}

/-- Routes to different nodes, in the order of their depth, the first of them to the initial state. -/
structure Table (b : Behavior σ κ) (o : Options σ κ) (routes : List (Route σ κ)) : Prop where
  sound : ∀ r ∈ routes, ∀ a ∈ r.first :: r.ties, a.At b o r.key
  distinct : routes.Pairwise fun q r => q.key ≠ r.key
  ordered : routes.Pairwise fun q r => q.first.depth ≤ r.first.depth
  initial : ∃ r, routes.head? = some r ∧ r.first = ⟨b.initial, []⟩

/-- Every state that an event sent leads to from the route has a route, which is at most one step
deeper. -/
def LeadsInto (b : Behavior σ κ) (o : Options σ κ) (routes : List (Route σ κ)) (r : Route σ κ) : Prop :=
  ∀ e t, Sends b o r.first.state e t →
    ∃ r' ∈ routes, o.stateKey t (some e) = .ok r'.key ∧ r'.first.depth ≤ r.first.depth + 1

structure Progress (b : Behavior σ κ) (o : Options σ κ) (expanded frontier : List (Route σ κ)) :
    Prop where
  table : Table b o (expanded ++ frontier)
  near : ∀ f ∈ frontier, ∀ r ∈ expanded ++ frontier, r.first.depth ≤ f.first.depth + 1
  closed : ∀ r ∈ expanded, LeadsInto b o (expanded ++ frontier) r

/-! ## One route more, one tie more -/

namespace Route

variable [KeyType κ]

@[simp]
theorem key_addTie (r : Route σ κ) (k : κ) (a : Arrival σ) : (r.addTie k a).key = r.key := by
  unfold addTie
  split <;> rfl

@[simp]
theorem first_addTie (r : Route σ κ) (k : κ) (a : Arrival σ) : (r.addTie k a).first = r.first := by
  unfold addTie
  split <;> rfl

theorem mem_ties_addTie [LawfulKeyType κ] {r : Route σ κ} {k : κ} {a t : Arrival σ}
    (h : t ∈ (r.addTie k a).ties) : t ∈ r.ties ∨ t = a ∧ r.key = k := by
  unfold addTie at h
  split at h
  next same =>
    rcases List.mem_append.1 h with h | h
    · exact .inl h
    · exact .inr ⟨List.mem_singleton.1 h, (LawfulKeyType.same_iff _ _).1 same.1⟩
  next => exact .inl h

end Route

theorem isFound_iff [KeyType κ] [LawfulKeyType κ] (routes : List (Route σ κ)) (k : κ) :
    isFound routes k = true ↔ ∃ r ∈ routes, r.key = k := by
  simp [isFound, LawfulKeyType.same_iff]

theorem Table.add {routes : List (Route σ κ)} {k : κ} {a : Arrival σ} (h : Table b o routes)
    (new : ∀ r ∈ routes, r.key ≠ k) (deep : ∀ r ∈ routes, r.first.depth ≤ a.depth)
    (arrival : a.At b o k) : Table b o (routes ++ [⟨k, a, []⟩]) where
  sound := by
    intro r hr
    rcases List.mem_append.1 hr with hr | hr
    · exact h.sound r hr
    · rw [List.mem_singleton] at hr
      subst hr
      simpa using arrival
  distinct := by simpa [List.pairwise_append] using ⟨h.distinct, new⟩
  ordered := by simpa [List.pairwise_append] using ⟨h.ordered, deep⟩
  initial := by
    obtain ⟨r, hr, first⟩ := h.initial
    exact ⟨r, by rw [List.head?_append, hr]; rfl, first⟩

theorem Table.tie [KeyType κ] [LawfulKeyType κ] {expanded frontier : List (Route σ κ)} {k : κ}
    {a : Arrival σ} (h : Table b o (expanded ++ frontier)) (arrival : a.At b o k) :
    Table b o (expanded ++ frontier.map fun r => r.addTie k a) where
  sound := by
    intro r hr t ht
    rcases List.mem_append.1 hr with hr | hr
    · exact h.sound r (List.mem_append_left _ hr) t ht
    · obtain ⟨q, hq, rfl⟩ := List.mem_map.1 hr
      have held := h.sound q (List.mem_append_right _ hq)
      rw [Route.key_addTie]
      rw [Route.first_addTie] at ht
      rcases List.mem_cons.1 ht with rfl | ht
      · exact held _ List.mem_cons_self
      · rcases Route.mem_ties_addTie ht with ht | ⟨rfl, rfl⟩
        · exact held _ (List.mem_cons_of_mem _ ht)
        · exact arrival
  distinct := by
    have distinct := h.distinct
    simp only [List.pairwise_append, List.pairwise_map, List.mem_map, forall_exists_index, and_imp,
      forall_apply_eq_imp_iff₂, Route.key_addTie] at distinct ⊢
    exact distinct
  ordered := by
    have ordered := h.ordered
    simp only [List.pairwise_append, List.pairwise_map, List.mem_map, forall_exists_index, and_imp,
      forall_apply_eq_imp_iff₂, Route.first_addTie] at ordered ⊢
    exact ordered
  initial := by
    obtain ⟨r, hr, first⟩ := h.initial
    rw [List.head?_append] at hr ⊢
    cases expanded with
    | cons q expanded => exact ⟨r, hr, first⟩
    | nil =>
      cases frontier with
      | nil => cases hr
      | cons q frontier =>
        cases hr
        exact ⟨_, rfl, by rw [Route.first_addTie, first]⟩

/-! ## Expanding a route -/

/-- Every route of the first table is one of the second, though it may have more ties there. -/
def Extends (old new : List (Route σ κ)) : Prop :=
  ∀ r ∈ old, ∃ r' ∈ new, r'.key = r.key ∧ r'.first = r.first

theorem Extends.refl (routes : List (Route σ κ)) : Extends routes routes :=
  fun r hr => ⟨r, hr, rfl, rfl⟩

theorem Extends.trans {first second third : List (Route σ κ)} (h : Extends first second)
    (h' : Extends second third) : Extends first third := by
  intro r hr
  obtain ⟨r', hr', key, eq⟩ := h r hr
  obtain ⟨r'', hr'', key', eq'⟩ := h' r' hr'
  exact ⟨r'', hr'', key'.trans key, eq'.trans eq⟩

theorem extends_addTie [KeyType κ] (expanded frontier : List (Route σ κ)) (k : κ) (a : Arrival σ) :
    Extends (expanded ++ frontier) (expanded ++ frontier.map fun r => r.addTie k a) := by
  intro r hr
  rcases List.mem_append.1 hr with hr | hr
  · exact ⟨r, List.mem_append_left _ hr, rfl, rfl⟩
  · exact ⟨_, List.mem_append_right _ (List.mem_map_of_mem hr), by simp, by simp⟩

theorem LeadsInto.extends {old new : List (Route σ κ)} {r : Route σ κ} (h : LeadsInto b o old r)
    (more : Extends old new) : LeadsInto b o new r := by
  intro e t sent
  obtain ⟨r', hr', key, depth⟩ := h e t sent
  obtain ⟨r'', hr'', key', first⟩ := more r' hr'
  exact ⟨r'', hr'', key'.symm ▸ key, first.symm ▸ depth⟩

/-- A table whose routes are at most one step deeper than the source being expanded. -/
structure Stage (b : Behavior σ κ) (o : Options σ κ) (source : Arrival σ)
    (routes : List (Route σ κ)) : Prop where
  table : Table b o routes
  near : ∀ r ∈ routes, r.first.depth ≤ source.depth + 1

section

variable [KeyType κ] [LawfulKeyType κ] {source : Arrival σ} {expanded frontier : List (Route σ κ)}

/-- What one successor does to the table: nothing, or it adds a tie to a route that waits, or it is a
new route at the end. -/
theorem discover_cases (o : Options σ κ) (source : Arrival σ) (expanded frontier : List (Route σ κ))
    (x : Successor σ κ) :
    (∃ r ∈ expanded ++ frontier, r.key = x.key) ∧
        (discover o source expanded frontier x = frontier ∨
          discover o source expanded frontier x =
            frontier.map fun r => r.addTie x.key (source.extend x)) ∨
      (∀ r ∈ expanded ++ frontier, r.key ≠ x.key) ∧
        discover o source expanded frontier x = frontier ++ [⟨x.key, source.extend x, []⟩] := by
  unfold discover
  split
  next found =>
    obtain ⟨r, hr, key⟩ := (isFound_iff _ _).1 found
    exact .inl ⟨⟨r, List.mem_append_left _ hr, key⟩, .inl rfl⟩
  next unexpanded =>
    split
    next found =>
      obtain ⟨r, hr, key⟩ := (isFound_iff _ _).1 found
      refine .inl ⟨⟨r, List.mem_append_right _ hr, key⟩, ?_⟩
      split
      · exact .inr rfl
      · exact .inl rfl
    next unknown =>
      refine .inr ⟨?_, rfl⟩
      intro r hr key
      rcases List.mem_append.1 hr with hr | hr
      · exact unexpanded ((isFound_iff _ _).2 ⟨r, hr, key⟩)
      · exact unknown ((isFound_iff _ _).2 ⟨r, hr, key⟩)

theorem Stage.discover {x : Successor σ κ} (h : Stage b o source (expanded ++ frontier))
    (arrival : (source.extend x).At b o x.key) :
    Stage b o source (expanded ++ discover o source expanded frontier x) ∧
      Extends (expanded ++ frontier) (expanded ++ discover o source expanded frontier x) ∧
      ∃ r ∈ expanded ++ discover o source expanded frontier x, r.key = x.key := by
  rcases discover_cases o source expanded frontier x with ⟨found, eq | eq⟩ | ⟨new, eq⟩ <;> rw [eq]
  · exact ⟨h, .refl _, found⟩
  · have more := extends_addTie expanded frontier x.key (source.extend x)
    refine ⟨⟨h.table.tie arrival, ?_⟩, more, ?_⟩
    · intro r hr
      rcases List.mem_append.1 hr with hr | hr
      · exact h.near r (List.mem_append_left _ hr)
      · obtain ⟨q, hq, rfl⟩ := List.mem_map.1 hr
        rw [Route.first_addTie]
        exact h.near q (List.mem_append_right _ hq)
    · obtain ⟨r, hr, key⟩ := found
      obtain ⟨r', hr', key', -⟩ := more r hr
      exact ⟨r', hr', key'.trans key⟩
  · rw [← List.append_assoc]
    refine ⟨⟨h.table.add new ?_ arrival, ?_⟩, ?_, ?_⟩
    · intro r hr
      rw [Arrival.depth_extend]
      exact h.near r hr
    · intro r hr
      rcases List.mem_append.1 hr with hr | hr
      · exact h.near r hr
      · rw [List.mem_singleton] at hr
        subst hr
        exact Nat.le_of_eq (Arrival.depth_extend source x)
    · exact fun r hr => ⟨r, List.mem_append_left _ hr, rfl, rfl⟩
    · exact ⟨_, List.mem_append_right _ (List.mem_singleton.2 rfl), rfl⟩

/-- The whole of the successors: each of them has a route in the end. -/
theorem Stage.discoverAll {found : List (Successor σ κ)} (h : Stage b o source (expanded ++ frontier))
    (arrivals : ∀ x ∈ found, (source.extend x).At b o x.key) :
    Stage b o source (expanded ++ found.foldl (Search.discover o source expanded) frontier) ∧
      Extends (expanded ++ frontier)
        (expanded ++ found.foldl (Search.discover o source expanded) frontier) ∧
      ∀ x ∈ found,
        ∃ r ∈ expanded ++ found.foldl (Search.discover o source expanded) frontier, r.key = x.key := by
  induction found generalizing frontier with
  | nil => exact ⟨h, .refl _, by simp⟩
  | cons x found ih =>
    obtain ⟨stage, more, r, hr, key⟩ := h.discover (arrivals x List.mem_cons_self)
    obtain ⟨stage', more', rest⟩ := ih stage fun y hy => arrivals y (List.mem_cons_of_mem _ hy)
    refine ⟨stage', more.trans more', ?_⟩
    intro y hy
    rcases List.mem_cons.1 hy with rfl | hy
    · obtain ⟨r', hr', key', -⟩ := more' r hr
      exact ⟨r', hr', key'.trans key⟩
    · exact rest y hy

end

/-! ## The search -/

/-- The table before anything is expanded. -/
theorem Progress.initial {k : κ} (h : o.stateKey b.initial none = .ok k) :
    Progress b o [] [⟨k, ⟨b.initial, []⟩, []⟩] where
  table := by
    refine ⟨?_, List.pairwise_singleton _ _, List.pairwise_singleton _ _, _, rfl, rfl⟩
    intro r hr a ha
    rw [List.nil_append, List.mem_singleton] at hr
    subst hr
    rw [List.mem_singleton] at ha
    subst ha
    exact Arrival.at_initial h
  near := by
    intro f hf r hr
    rw [List.nil_append, List.mem_singleton] at hr
    rw [List.mem_singleton] at hf
    subst hf hr
    exact Nat.le_succ _
  closed := by simp

section

variable [KeyType κ] [LawfulKeyType κ]

omit [LawfulKeyType κ] in
/-- A successor of a route's first arrival is an arrival in its turn. -/
theorem Table.at_successors {routes : List (Route σ κ)} {r : Route σ κ} {found : List (Successor σ κ)}
    (h : Table b o routes) (mem : r ∈ routes)
    (computed : successors b o entersFiled r.first.state = .ok found) :
    ∀ x ∈ found, (r.first.extend x).At b o x.key := by
  intro x hx
  obtain ⟨sent, key, -⟩ := (mem_successors_iff computed).1 hx
  exact .extend (h.sound r mem _ List.mem_cons_self).admitted sent key

theorem Progress.step {expanded frontier : List (Route σ κ)} {r : Route σ κ}
    {found : List (Successor σ κ)} (h : Progress b o expanded (r :: frontier))
    (computed : successors b o entersFiled r.first.state = .ok found) :
    Progress b o (expanded ++ [r]) (found.foldl (discover o r.first (expanded ++ [r])) frontier) := by
  have split : expanded ++ r :: frontier = (expanded ++ [r]) ++ frontier := by simp
  have here : r ∈ expanded ++ r :: frontier := by simp
  have stage : Stage b o r.first ((expanded ++ [r]) ++ frontier) :=
    ⟨split ▸ h.table, split ▸ h.near r List.mem_cons_self⟩
  obtain ⟨after, more, known⟩ := stage.discoverAll (h.table.at_successors here computed)
  refine ⟨after.table, ?_, ?_⟩
  · -- A route that waits stands after `r`, so it is at least as deep.
    intro f hf q hq
    have before : r.first.depth ≤ f.first.depth :=
      (List.pairwise_append.1 after.table.ordered).2.2 r (by simp) f hf
    exact Nat.le_trans (after.near q hq) (Nat.succ_le_succ before)
  · intro q hq
    rcases List.mem_append.1 hq with hq | hq
    · exact (h.closed q hq).extends (split ▸ more)
    · rw [List.mem_singleton] at hq
      subst hq
      intro e t sent
      obtain ⟨k, key, asked | ⟨-, mem⟩⟩ := exists_key_of_sends computed sent
      · rw [entersFiled_eq] at asked
        cases asked
      · obtain ⟨r', hr', rfl⟩ := known _ mem
        exact ⟨r', hr', key, after.near r' hr'⟩

theorem Progress.explore {budget : Nat} {expanded frontier routes : List (Route σ κ)}
    (h : Progress b o expanded frontier) (run : explore b o budget expanded frontier = .ok routes) :
    Progress b o routes [] := by
  induction budget generalizing expanded frontier with
  | zero =>
    cases frontier with
    | nil =>
      cases run
      exact h
    | cons r frontier => cases run
  | succ budget ih =>
    cases frontier with
    | nil =>
      cases run
      exact h
    | cons r frontier =>
      obtain ⟨found, computed, run⟩ := bind_eq_ok_iff.1 run
      exact ih (h.step computed) run

/-- The routes of a search that ends: a table, and every route leads into it. -/
theorem progress_of_shortestRoutes {routes : List (Route σ κ)} (h : shortestRoutes b o = .ok routes) :
    Progress b o routes [] := by
  obtain ⟨k, key, run⟩ := bind_eq_ok_iff.1 h
  rw [nodeKey_eq_stateKey] at key
  exact (Progress.initial key).explore run

end

end StateWalk.Search
