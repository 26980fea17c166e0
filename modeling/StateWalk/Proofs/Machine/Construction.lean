import StateWalk.Machine.Basic
import StateWalk.Proofs.Machine.Tree
import StateWalk.Proofs.Outcome

/-!
# From definitions to node trees

A tree is built node by node: every definition in a machine's definition becomes one node of its tree, at the
same place (`forall₂_nodes`), and what leads to a definition leads to its node (`at?_isSome_eq`).
-/

namespace StateWalk.Machine

open Outcome

/-! ## Definitions as trees -/

namespace Definition

/-- What holds of a definition if it holds of its children holds of every definition. -/
theorem induction {motive : Definition → Prop}
    (step : ∀ d : Definition, (∀ c ∈ d.children, motive c.2) → motive d) (d : Definition) : motive d := by
  refine step d fun c mem => ?_
  have smaller : sizeOf c.2 < sizeOf d := by
    have := List.sizeOf_lt_of_mem mem
    obtain ⟨id, kind, initial, description, on, children⟩ := d
    obtain ⟨key, c⟩ := c
    simp only [Definition.mk.sizeOf_spec, Prod.mk.sizeOf_spec] at this ⊢
    omega
  exact induction step c.2
termination_by sizeOf d

/-- Every definition has its children under different keys, as mappings do. -/
inductive DistinctKeys : Definition → Prop where
  | intro {d : Definition} :
    (d.children.map Prod.fst).Nodup → (∀ c ∈ d.children, DistinctKeys c.2) → DistinctKeys d

theorem DistinctKeys.of_childless {d : Definition} (childless : d.children = []) : d.DistinctKeys := by
  refine .intro (by rw [childless]; exact List.nodup_nil) fun c mem => ?_
  rw [childless] at mem
  cases mem

/-- The definition that a path leads to. -/
def at? (d : Definition) : List String → Option Definition
  | [] => some d
  | key :: path => (Keyed.find? d.children key).bind fun c => c.at? path

mutual

/-- A definition that stands at `path` and those below it with their places, every one before its
children. -/
def placed (path : List String) : Definition → List (List String × Definition)
  | d@⟨_, _, _, _, _, children⟩ => (path, d) :: placedAmong path children

def placedAmong (path : List String) : List (String × Definition) → List (List String × Definition)
  | [] => []
  | (key, d) :: rest => placed (path ++ [key]) d ++ placedAmong path rest

end

theorem placedAmong_eq (path : List String) (children : List (String × Definition)) :
    placedAmong path children = children.flatMap fun c => c.2.placed (path ++ [c.1]) := by
  induction children with
  | nil => rfl
  | cons c children ih => rw [placedAmong, ih, List.flatMap_cons]

theorem placed_eq (path : List String) (d : Definition) :
    d.placed path = (path, d) :: d.children.flatMap fun c => c.2.placed (path ++ [c.1]) := by
  obtain ⟨id, kind, initial, description, on, children⟩ := d
  rw [placed, placedAmong_eq]

end Definition

/-! ## Building -/

namespace Node

variable {machineId : String} {path : List String}

theorem buildAll_eq_ok_iff {ds : List (String × Definition)} {ns : List (String × Node)} :
    buildAll machineId path ds = .ok ns ↔
      List.Forall₂ (fun d n => n.1 = d.1 ∧ build machineId (path ++ [d.1]) d.2 = .ok n.2) ds ns := by
  induction ds generalizing ns with
  | nil =>
    rw [buildAll, Except.ok.injEq, List.forall₂_nil_left_iff]
    exact eq_comm
  | cons d ds ih =>
    simp only [buildAll, bind_eq_ok_iff, ih]
    constructor
    · rintro ⟨n, built, ns', all, eq⟩
      cases eq
      exact .cons ⟨rfl, built⟩ all
    · intro all
      cases all with
      | @cons _ n _ ns first rest =>
        obtain ⟨key, n⟩ := n
        obtain ⟨rfl, built⟩ := first
        exact ⟨n, built, ns, rest, rfl⟩

/-- What the node of a definition is. -/
structure Builds (machineId : String) (path : List String) (d : Definition) (n : Node) : Prop where
  id : n.id = idAt machineId path d.id
  initial : n.initial = d.initial
  description : n.description = d.description
  on : transitions d.on = .ok n.on
  children : List.Forall₂ (fun d n => n.1 = d.1 ∧ build machineId (path ++ [d.1]) d.2 = .ok n.2) d.children
    n.children

theorem builds_of_build {d : Definition} {n : Node} (h : build machineId path d = .ok n) :
    Builds machineId path d n := by
  obtain ⟨id, kind, initial, description, on, children⟩ := d
  simp only [build, bind_eq_ok_iff, buildAll_eq_ok_iff] at h
  obtain ⟨ts, transitions, nodes, built, eq⟩ := h
  cases eq
  exact ⟨rfl, rfl, rfl, transitions, built⟩

/-- Each definition becomes a node at its place. -/
theorem forall₂_nodes {d : Definition} {n : Node} (h : build machineId path d = .ok n) :
    List.Forall₂ (fun e e' => e'.1 = e.1 ∧ build machineId e.1 e.2 = .ok e'.2) (d.placed path) (n.nodes path) := by
  induction d using Definition.induction generalizing path n with
  | step d ih =>
    rw [Definition.placed_eq, nodes_eq]
    refine .cons ⟨rfl, h⟩ ?_
    -- below the root the two lists go through the same children side by side
    have children := (builds_of_build h).children
    generalize d.children = ds at ih children ⊢
    generalize n.children = ns at children ⊢
    induction children with
    | nil => exact .nil
    | @cons d n ds ns first _ rest =>
      rw [List.forall_mem_cons] at ih
      obtain ⟨key, n⟩ := n
      obtain ⟨rfl, built⟩ := first
      rw [List.flatMap_cons, List.flatMap_cons]
      exact List.rel_append (ih.1 built) (rest ih.2)

theorem keys_eq {d : Definition} {n : Node} (h : build machineId path d = .ok n) :
    n.children.map Prod.fst = d.children.map Prod.fst := by
  have children := (builds_of_build h).children
  generalize d.children = ds at children ⊢
  generalize n.children = ns at children ⊢
  induction children with
  | nil => rfl
  | cons first _ ih => rw [List.map_cons, List.map_cons, first.1, ih]

theorem distinctKeys_of_build {d : Definition} {n : Node} (distinct : d.DistinctKeys)
    (h : build machineId path d = .ok n) : n.DistinctKeys := by
  induction distinct generalizing path n with
  | intro nodup _ ih =>
    refine .intro ((keys_eq h).symm ▸ nodup) fun c mem => ?_
    obtain ⟨d, listed, -, built⟩ := exists_left_of_forall₂ (builds_of_build h).children mem
    exact ih d listed built

/-- A path leads to a node where it leads to a definition, and there only. -/
theorem at?_isSome_eq {d : Definition} {n : Node} (h : build machineId path d = .ok n) (below : List String) :
    (n.at? below).isSome = (d.at? below).isSome := by
  induction below generalizing path d n with
  | nil => rfl
  | cons key below ih =>
    have children := (builds_of_build h).children
    rw [at?_cons, Definition.at?]
    generalize d.children = ds at children ⊢
    generalize n.children = ns at children ⊢
    induction children with
    | nil => rfl
    | @cons d n ds ns first _ rest =>
      obtain ⟨k, n⟩ := n
      obtain ⟨rfl, built⟩ := first
      by_cases here : d.1 = key
      · subst here
        simpa [Keyed.find?] using ih built
      · simpa [Keyed.find?, List.find?_cons, here] using rest

end Node

/-- A machine is made of a tree without problems. -/
structure Sound (d : MachineDefinition) (m : Machine) : Prop where
  built : Node.build m.id [] d.root = .ok m.root
  named : d.id.getD (some defaultId) = some m.id
  context : m.context = d.context
  directed : d.root.misdirections = []
  checked : problems m.root = []

theorem sound_of_ofDefinition {d : MachineDefinition} {m : Machine} (h : ofDefinition d = .ok m) :
    Sound d m := by
  rw [ofDefinition] at h
  cases named : d.id.getD (some defaultId) with
  | none =>
    rw [named] at h
    cases h
  | some id =>
    rw [named] at h
    simp only [bind_eq_ok_iff] at h
    obtain ⟨root, built, h⟩ := h
    split at h
    · cases h
    · cases h
      exact ⟨built, named, rfl, ‹_›, ‹_›⟩
    · cases h

end StateWalk.Machine
