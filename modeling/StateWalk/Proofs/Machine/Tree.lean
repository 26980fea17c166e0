import Mathlib.Data.List.Nodup
import Mathlib.Data.List.Perm.Basic
import StateWalk.Machine.Validation

/-!
# Node trees

What the functions on a node tree say about each other. `nodes_eq` and `registrations_eq` open a tree at its
root, and `Node.induction` is the induction that goes with them. In a tree whose children are told apart by
their keys, the nodes are exactly what addresses lead to (`mem_nodes_iff`).
-/

namespace StateWalk

namespace Keyed

variable {α : Type} {entries : List (String × α)}

theorem mem_of_find? {key : String} {a : α} (h : find? entries key = some a) : (key, a) ∈ entries := by
  obtain ⟨entry, found, rfl⟩ := Option.map_eq_some_iff.1 h
  obtain rfl : entry.1 = key := by simpa using List.find?_some found
  exact List.mem_of_find?_eq_some found

/-- Among different keys, every entry is the one that is found. -/
theorem find?_of_mem {entry : String × α} (nodup : (entries.map Prod.fst).Nodup) (mem : entry ∈ entries) :
    find? entries entry.1 = some entry.2 := by
  rw [find?]
  cases found : entries.find? (fun e => e.1 == entry.1) with
  | none =>
    have unlisted := List.find?_eq_none.1 found entry mem
    simp at unlisted
  | some other =>
    have same : other.1 = entry.1 := by simpa using List.find?_some found
    rw [List.inj_on_of_nodup_map nodup (List.mem_of_find?_eq_some found) mem same]
    rfl

theorem find?_isSome_iff {key : String} : (find? entries key).isSome ↔ key ∈ entries.map Prod.fst := by
  rw [find?, Option.isSome_map, List.find?_isSome, List.mem_map]
  simp only [beq_iff_eq]

end Keyed

namespace Machine

namespace Node

/-- What holds of a node if it holds of its children holds of every node. -/
theorem induction {motive : Node → Prop}
    (step : ∀ n : Node, (∀ c ∈ n.children, motive c.2) → motive n) (n : Node) : motive n := by
  refine step n fun c mem => ?_
  have smaller : sizeOf c.2 < sizeOf n := by
    have := List.sizeOf_lt_of_mem mem
    obtain ⟨id, kind, initial, description, on, children⟩ := n
    obtain ⟨key, c⟩ := c
    simp only [Node.mk.sizeOf_spec, Prod.mk.sizeOf_spec] at this ⊢
    omega
  exact induction step c.2
termination_by sizeOf n

/-- Every node knows its children by different keys, as mappings do. -/
inductive DistinctKeys : Node → Prop where
  | intro {n : Node} : (n.children.map Prod.fst).Nodup → (∀ c ∈ n.children, DistinctKeys c.2) → DistinctKeys n

theorem DistinctKeys.nodup {n : Node} (h : n.DistinctKeys) : (n.children.map Prod.fst).Nodup := by
  cases h with
  | intro nodup _ => exact nodup

theorem DistinctKeys.child {n : Node} (h : n.DistinctKeys) {c : String × Node} (mem : c ∈ n.children) :
    c.2.DistinctKeys := by
  cases h with
  | intro _ below => exact below c mem

/-! ## Lists of nodes -/

theorem nodesAmong_eq (path : List String) (children : List (String × Node)) :
    nodesAmong path children = children.flatMap fun c => c.2.nodes (path ++ [c.1]) := by
  induction children with
  | nil => rfl
  | cons c children ih => rw [nodesAmong, ih, List.flatMap_cons]

theorem nodes_eq (path : List String) (n : Node) :
    n.nodes path = (path, n) :: n.children.flatMap fun c => c.2.nodes (path ++ [c.1]) := by
  obtain ⟨id, kind, initial, description, on, children⟩ := n
  rw [nodes, nodesAmong_eq]

theorem registrationsAmong_eq (path : List String) (children : List (String × Node)) :
    registrationsAmong path children = children.flatMap fun c => c.2.registrations (path ++ [c.1]) := by
  induction children with
  | nil => rfl
  | cons c children ih => rw [registrationsAmong, ih, List.flatMap_cons]

theorem registrations_eq (path : List String) (n : Node) :
    n.registrations path =
      (n.children.flatMap fun c => c.2.registrations (path ++ [c.1])) ++ [(n.id, path)] := by
  obtain ⟨id, kind, initial, description, on, children⟩ := n
  rw [registrations, registrationsAmong_eq]

/-- What is registered are the ids of the nodes. -/
theorem registrations_perm (path : List String) (n : Node) :
    (n.registrations path).Perm ((n.nodes path).map fun e => (e.2.id, e.1)) := by
  induction n using induction generalizing path with
  | step n ih =>
    rw [registrations_eq, nodes_eq, List.map_cons, List.map_flatMap]
    have below := List.Perm.flatMap_left n.children fun c mem => ih c mem (path ++ [c.1])
    exact (List.perm_append_singleton ..).trans (below.cons _)

/-! ## Addresses -/

theorem at?_cons (n : Node) (key : String) (path : List String) :
    n.at? (key :: path) = (Keyed.find? n.children key).bind fun c => c.at? path := by
  rw [at?]

theorem at?_append (n : Node) (path below : List String) :
    n.at? (path ++ below) = (n.at? path).bind fun c => c.at? below := by
  induction path generalizing n with
  | nil => simp [at?]
  | cons key path ih =>
    rw [List.cons_append, at?_cons, at?_cons, Option.bind_assoc]
    exact Option.bind_congr fun c _ => ih c

theorem mem_nodes_of_at? {n found : Node} {below : List String} (path : List String)
    (h : n.at? below = some found) : (path ++ below, found) ∈ n.nodes path := by
  induction below generalizing n path with
  | nil =>
    cases h
    rw [nodes_eq, List.append_nil]
    exact List.mem_cons_self
  | cons key below ih =>
    rw [at?_cons, Option.bind_eq_some_iff] at h
    obtain ⟨c, child, h⟩ := h
    have mem := ih (path ++ [key]) h
    rw [List.append_assoc] at mem
    rw [nodes_eq]
    exact List.mem_cons_of_mem _ (List.mem_flatMap.2 ⟨_, Keyed.mem_of_find? child, mem⟩)

theorem at?_of_mem_nodes {n found : Node} {path address : List String} (distinct : n.DistinctKeys)
    (mem : (address, found) ∈ n.nodes path) : ∃ below, address = path ++ below ∧ n.at? below = some found := by
  induction n using induction generalizing path with
  | step n ih =>
    rw [nodes_eq, List.mem_cons, List.mem_flatMap] at mem
    obtain eq | ⟨c, child, mem⟩ := mem
    · cases eq
      exact ⟨[], (List.append_nil _).symm, rfl⟩
    · obtain ⟨below, rfl, found⟩ := ih c child (distinct.child child) mem
      refine ⟨c.1 :: below, List.append_assoc .., ?_⟩
      rw [at?_cons, Keyed.find?_of_mem distinct.nodup child]
      exact found

/-- The nodes of a tree are what its addresses lead to. -/
theorem mem_nodes_iff {root n : Node} {path : List String} (distinct : root.DistinctKeys) :
    (path, n) ∈ root.nodes [] ↔ root.at? path = some n := by
  constructor
  · intro mem
    obtain ⟨_, rfl, found⟩ := at?_of_mem_nodes distinct mem
    exact found
  · exact mem_nodes_of_at? []

/-- What is registered is the id of each node, with its address. -/
theorem mem_registrations_iff {root : Node} {id : String} {path : List String} (distinct : root.DistinctKeys) :
    (id, path) ∈ root.registrations [] ↔ ∃ n, root.at? path = some n ∧ n.id = id := by
  rw [(root.registrations_perm []).mem_iff, List.mem_map]
  constructor
  · rintro ⟨⟨_, n⟩, mem, eq⟩
    obtain ⟨rfl, rfl⟩ := Prod.mk.inj eq
    exact ⟨n, (mem_nodes_iff distinct).1 mem, rfl⟩
  · rintro ⟨n, here, rfl⟩
    exact ⟨(path, n), (mem_nodes_iff distinct).2 here, rfl⟩

/-! ## The way to a leaf -/

/-- The initial child of a node, if it has one, leads on to where the child leads. -/
theorem entry_eq {n c : Node} {key : String} (named : n.initial = some key)
    (child : Keyed.find? n.children key = some c) : n.entry = key :: c.entry := by
  obtain ⟨id, kind, initial, description, on, children⟩ := n
  simp only at named child
  subst named
  rw [entry]
  induction children with
  | nil => cases child
  | cons first rest ih =>
    obtain ⟨k, first⟩ := first
    rw [entryAmong]
    by_cases here : k = key
    · subst here
      simp only [Keyed.find?, List.find?_cons, beq_self_eq_true, Option.map_some] at child
      cases child
      simp
    · have other : Keyed.find? ((k, first) :: rest) key = Keyed.find? rest key := by
        simp [Keyed.find?, here]
      rw [other] at child
      rw [if_neg (by simpa using Ne.symm here)]
      exact ih child

theorem entry_of_children_nil {n : Node} (h : n.children = []) : n.entry = [] := by
  obtain ⟨id, kind, initial, description, on, children⟩ := n
  cases h
  rfl

/-- A node has no initial problem exactly if it has no children, or one of them is its initial child. -/
theorem initialProblems_eq_nil_iff {n : Node} :
    initialProblems n = [] ↔
      n.children = [] ∨ ∃ key c, n.initial = some key ∧ Keyed.find? n.children key = some c := by
  rw [initialProblems]
  by_cases empty : n.children = []
  · simp [empty]
  · rw [if_neg (by simpa using empty)]
    cases named : n.initial with
    | none => simp [empty]
    | some key =>
      have listed_iff : (n.children.any fun c => c.1 == key) ↔ ∃ c, Keyed.find? n.children key = some c := by
        rw [← Option.isSome_iff_exists, Keyed.find?_isSome_iff]
        simp
      simp only [listed_iff, empty, false_or, Option.some.injEq, exists_and_left, exists_eq_left']
      split <;> simp_all

/-- The way in from a node ends in a leaf, if every node on it has an initial child. -/
theorem exists_leaf {n : Node} (sound : ∀ {path c}, n.at? path = some c → initialProblems c = []) :
    ∃ leaf, n.at? n.entry = some leaf ∧ leaf.children = [] := by
  induction n using induction with
  | step n ih =>
    -- what is sound about a node is passed on to the child that the way goes through
    have here : n.at? [] = some n := rfl
    obtain empty | ⟨key, c, named, child⟩ := initialProblems_eq_nil_iff.1 (sound here)
    · rw [entry_of_children_nil empty]
      exact ⟨n, rfl, empty⟩
    · have below : ∀ {path c'}, c.at? path = some c' → initialProblems c' = [] := by
        intro path c' h
        have address : n.at? (key :: path) = some c' := by
          rw [at?_cons, child]
          exact h
        exact sound address
      obtain ⟨leaf, found, childless⟩ := ih (key, c) (Keyed.mem_of_find? child) below
      refine ⟨leaf, ?_, childless⟩
      rw [entry_eq named child, at?_cons, child]
      exact found

end Node

end Machine

end StateWalk
