import Mathlib.Data.List.Induction
import StateWalk.Proofs.Machine.Construction

/-!
# Valid definitions

What makes a definition valid, and what its violations are, said of the definition alone: its ids are all
different, whatever has children starts in one of them, and every target is there. The checks on the tree that
is built from it come to the same (`problems_eq`). So a machine is made of a definition exactly if it is
valid, and else its violations are reported, one by one (`ofDefinition_validates`).

Only targets that are texts are looked up and missed. With any other target the checks end in the fault of
looking it up, and no violation is reported, neither this one nor the others (`numberedHatch_unreported`).
-/

namespace StateWalk.Machine

open Outcome

/-! ## What is said of a definition -/

namespace Definition

/-- Whatever stands in the place of a transition means one. -/
inductive Parses : Definition → Prop where
  | intro {d : Definition} :
    (∀ entry ∈ d.on, ∀ declared ∈ entry.2, ∀ v, declared ≠ .invalid v) → (∀ c ∈ d.children, Parses c.2) →
      Parses d

mutual

/-- The ids of a definition that stands at `path` and of those below it, every one after its children. -/
def ids (machineId : String) (path : List String) : Definition → List String
  | ⟨id, _, _, _, _, children⟩ => idsAmong machineId path children ++ [Node.idAt machineId path id]

def idsAmong (machineId : String) (path : List String) : List (String × Definition) → List String
  | [] => []
  | (key, d) :: rest => ids machineId (path ++ [key]) d ++ idsAmong machineId path rest

end

/-- The targets of a definition that are texts, with the types of their events, in the order of their
declaration. -/
def targets (d : Definition) : List (String × String) :=
  d.on.flatMap fun (type, declared) => declared.filterMap fun
    | .transition t => t.target.map fun target => (type, target)
    | _ => none

/-- The target means a definition: `#id` one of this id, `.a.b` one below the source, and `a.b` one below
its parent; the root counts as its own parent. -/
def resolves (machineId : String) (root : Definition) (source : List String) (target : String) : Bool :=
  match target.toList with
  | '#' :: id => (root.ids machineId []).contains (String.ofList id)
  | '.' :: keys => (root.at? (source ++ (Text.splitAtDots keys).map String.ofList)).isSome
  | keys => (root.at? (source.dropLast ++ (Text.splitAtDots keys).map String.ofList)).isSome

/-- The definition has no children, or names one of them as its initial child. -/
def HasInitial (d : Definition) : Prop :=
  d.children = [] ∨ ∃ key ∈ d.children.map Prod.fst, d.initial = some key

/-- What a machine can be made of. -/
structure Valid (machineId : String) (root : Definition) : Prop where
  ids : ((root.placed []).map fun e => Node.idAt machineId e.1 e.2.id).Nodup
  initials : ∀ e ∈ root.placed [], e.2.HasInitial
  targets : ∀ e ∈ root.placed [], ∀ target ∈ e.2.targets, root.resolves machineId e.1 target.2 = true

/-- The items that stand in a list before already, once for each time that they do so again. -/
def repeats (items : List String) : List String :=
  (items.zipIdx.filter fun e => (items.take e.2).contains e.1).map Prod.fst

/-- What is wrong with the initial child of a definition. -/
def initialViolation (id : String) (d : Definition) : List Problem :=
  if d.children = [] then []
  else
    match d.initial with
    | none => [.noInitial id]
    | some key => if key ∈ d.children.map Prod.fst then [] else [.unknownInitial id key]

/-- What is wrong with the definition at `path`: its initial child, then every target that means nothing. -/
def violationsAt (machineId : String) (root : Definition) (path : List String) (d : Definition) : List Problem :=
  let id := Node.idAt machineId path d.id
  d.initialViolation id ++
    (d.targets.filter fun target => !root.resolves machineId path target.2).map fun target =>
      .unresolvedTarget id target.2 target.1

/-- What is wrong: every repeated id, then what is wrong with each definition. -/
def violations (machineId : String) (root : Definition) : List Problem :=
  (repeats (root.ids machineId [])).map Problem.duplicateId ++
    (root.placed []).flatMap fun e => violationsAt machineId root e.1 e.2

/-! ## Repeated ids -/

theorem repeated_concat (seen items : List String) (item : String) :
    repeated seen (items ++ [item]) =
      repeated seen items ++ if item ∈ seen ∨ item ∈ items then [item] else [] := by
  induction items generalizing seen with
  | nil => by_cases known : item ∈ seen <;> simp [repeated, known]
  | cons first items ih =>
    rw [List.cons_append, repeated, repeated, ih, ih]
    by_cases known : first ∈ seen
    · have same : item ∈ seen ∨ item ∈ items ↔ item ∈ seen ∨ item ∈ first :: items := by
        rw [List.mem_cons]
        constructor
        · exact Or.imp_right .inr
        · rintro (mem | rfl | mem)
          exacts [.inl mem, .inl known, .inr mem]
      simp only [List.contains_iff_mem, known, if_true, List.cons_append, same]
    · simp only [List.contains_iff_mem, known, if_false, List.mem_cons, or_assoc, or_left_comm]

theorem repeats_concat (items : List String) (item : String) :
    repeats (items ++ [item]) = repeats items ++ if item ∈ items then [item] else [] := by
  have before : (items.zipIdx.filter fun e => ((items ++ [item]).take e.2).contains e.1) =
      items.zipIdx.filter fun e => (items.take e.2).contains e.1 := by
    refine List.filter_congr fun e mem => ?_
    have place : e.2 ≤ items.length := Nat.le_of_lt (List.snd_lt_of_mem_zipIdx mem)
    rw [List.take_append_of_le_length place]
  rw [repeats, List.zipIdx_append, List.filter_append, before, List.map_append, repeats]
  by_cases known : item ∈ items <;> simp [known]

/-- What the check of a tree lists are the repeated ids. -/
theorem repeated_eq_repeats (items : List String) : repeated [] items = repeats items := by
  induction items using List.reverseRecOn with
  | nil => rfl
  | append_singleton items item ih =>
    rw [repeated_concat, repeats_concat, ih]
    simp

theorem repeats_eq_nil_iff (items : List String) : repeats items = [] ↔ items.Nodup := by
  induction items using List.reverseRecOn with
  | nil => simp [repeats]
  | append_singleton items item ih =>
    rw [repeats_concat, List.append_eq_nil_iff, ih, List.nodup_append_comm, List.singleton_append,
      List.nodup_cons, and_comm]
    by_cases known : item ∈ items <;> simp [known]

theorem idsAmong_eq (machineId : String) (path : List String) (children : List (String × Definition)) :
    idsAmong machineId path children = children.flatMap fun c => c.2.ids machineId (path ++ [c.1]) := by
  induction children with
  | nil => rfl
  | cons c children ih => rw [idsAmong, ih, List.flatMap_cons]

theorem ids_eq (machineId : String) (path : List String) (d : Definition) :
    d.ids machineId path =
      (d.children.flatMap fun c => c.2.ids machineId (path ++ [c.1])) ++ [Node.idAt machineId path d.id] := by
  obtain ⟨id, kind, initial, description, on, children⟩ := d
  rw [ids, idsAmong_eq]

/-- The ids are those of all definitions, in another order. -/
theorem ids_perm (machineId : String) (path : List String) (d : Definition) :
    (d.ids machineId path).Perm ((d.placed path).map fun e => Node.idAt machineId e.1 e.2.id) := by
  induction d using induction generalizing path with
  | step d ih =>
    rw [ids_eq, placed_eq, List.map_cons, List.map_flatMap]
    have below := List.Perm.flatMap_left d.children fun c mem => ih c mem (path ++ [c.1])
    exact (List.perm_append_singleton ..).trans (below.cons _)

/-! ## No violations -/

theorem initialViolation_eq_nil_iff {id : String} {d : Definition} :
    d.initialViolation id = [] ↔ d.HasInitial := by
  rw [initialViolation, HasInitial]
  by_cases empty : d.children = []
  · simp [empty]
  · rw [if_neg empty]
    cases named : d.initial with
    | none => simp [empty]
    | some key => by_cases listed : key ∈ d.children.map Prod.fst <;> simp_all

/-- A definition is valid exactly if it has no violations. -/
theorem violations_eq_nil_iff {machineId : String} {root : Definition} :
    violations machineId root = [] ↔ Valid machineId root := by
  rw [violations, List.append_eq_nil_iff, List.map_eq_nil_iff, repeats_eq_nil_iff,
    (ids_perm machineId [] root).nodup_iff, List.flatMap_eq_nil_iff]
  simp only [violationsAt, List.append_eq_nil_iff, initialViolation_eq_nil_iff, List.map_eq_nil_iff, List.filter_eq_nil_iff,
    Bool.not_eq_true', Bool.not_eq_false]
  constructor
  · rintro ⟨ids, each⟩
    exact ⟨ids, fun e mem => (each e mem).1, fun e mem => (each e mem).2⟩
  · rintro ⟨ids, initials, targets⟩
    exact ⟨ids, fun e mem => ⟨initials e mem, targets e mem⟩⟩

end Definition

/-! ## The checks on the tree -/

namespace Node

variable {machineId : String} {path : List String} {d root : Definition} {n tree : Node}

/-- What the tree registers are the ids of the definition. -/
theorem registrations_map_fst (h : build machineId path d = .ok n) :
    (n.registrations path).map Prod.fst = d.ids machineId path := by
  induction d using Definition.induction generalizing path n with
  | step d ih =>
    have built := builds_of_build h
    have children := built.children
    rw [registrations_eq, Definition.ids_eq, List.map_append, built.id, List.map_flatMap]
    congr 1
    generalize d.children = ds at ih children ⊢
    generalize n.children = ns at children ⊢
    induction children with
    | nil => rfl
    | @cons d n ds ns first _ rest =>
      rw [List.forall_mem_cons] at ih
      obtain ⟨key, n⟩ := n
      obtain ⟨rfl, built⟩ := first
      rw [List.flatMap_cons, List.flatMap_cons, rest ih.2]
      exact congrArg (· ++ _) (ih.1 built)

/-- A target means a node of the tree where it means a definition. -/
theorem resolve_isSome_eq (h : build machineId [] root = .ok tree) (source : List String) (target : String) :
    (resolve tree source target).isSome = root.resolves machineId source target := by
  have descends : ∀ (path : List String) (keys : List (List Char)),
      (descend tree path keys).isSome = (root.at? (path ++ keys.map String.ofList)).isSome := by
    intro path keys
    rw [descend, ← at?_isSome_eq h]
    cases (tree.at? (path ++ keys.map String.ofList)).isSome <;> rfl
  by_cases named : ∃ id, target.toList = '#' :: id
  · obtain ⟨id, chars⟩ := named
    rw [resolve, Definition.resolves, chars]
    change (pathOfId tree (String.ofList id)).isSome = (root.ids machineId []).contains (String.ofList id)
    rw [pathOfId, Bool.eq_iff_iff, Keyed.find?_isSome_iff, registrations_map_fst h]
    exact List.contains_iff_mem.symm
  by_cases within : ∃ keys, target.toList = '.' :: keys
  · obtain ⟨keys, chars⟩ := within
    rw [resolve, Definition.resolves, chars]
    exact descends ..
  · have inTree : resolve tree source target =
        descend tree source.dropLast (Text.splitAtDots target.toList) := by
      rw [resolve]
      split
      · exact absurd ⟨_, ‹_›⟩ named
      · exact absurd ⟨_, ‹_›⟩ within
      · rfl
    have inDefinition : root.resolves machineId source target =
        (root.at? (source.dropLast ++ (Text.splitAtDots target.toList).map String.ofList)).isSome := by
      rw [Definition.resolves]
      split
      · exact absurd ⟨_, ‹_›⟩ named
      · exact absurd ⟨_, ‹_›⟩ within
      · rfl
    rw [inTree, inDefinition]
    exact descends ..

theorem initialProblems_eq (h : build machineId path d = .ok n) :
    initialProblems n = d.initialViolation n.id := by
  have keys := keys_eq h
  rw [initialProblems, Definition.initialViolation, (builds_of_build h).initial, ← keys]
  have empty_iff : d.children = [] ↔ n.children.isEmpty = true := by
    rw [List.isEmpty_iff, ← List.map_eq_nil_iff (f := Prod.fst), ← keys, List.map_eq_nil_iff]
  rw [if_congr empty_iff rfl rfl]
  refine if_congr Iff.rfl rfl ?_
  cases d.initial with
  | none => rfl
  | some key =>
    refine if_congr ?_ rfl rfl
    simp

/-- What is declared in a definition is declared in its node, with the same targets. -/
theorem targets_of_transitions {on : Declarations} {ts : List (String × List Transition)}
    (h : transitions on = .ok ts) :
    (ts.flatMap fun (type, ts) => ts.filterMap fun t => t.target.map fun target => (type, target)) =
      on.flatMap fun (type, declared) => declared.filterMap fun
        | .transition t => t.target.map fun target => (type, target)
        | _ => none := by
  have each := mapM_eq_ok_iff_forall₂.1 h
  clear h
  induction each with
  | nil => rfl
  | @cons entry entry' on ts first _ ih =>
    rw [List.flatMap_cons, List.flatMap_cons, ih]
    congr 1
    obtain ⟨type, declared⟩ := entry
    obtain ⟨found, made, eq⟩ := bind_eq_ok_iff.1 first
    cases eq
    have each := mapM_eq_ok_iff_forall₂.1 made
    clear first made ih
    simp only [List.filterMap_filterMap]
    induction each with
    | nil => rfl
    | @cons declared t rest found first _ ih =>
      cases declared with
      | transition t' =>
        cases first
        rw [List.filterMap_cons, List.filterMap_cons, ih]
        rfl
      | misdirected target =>
        cases first
        exact ih
      | invalid v => cases first

theorem targetProblems_eq (h : build machineId [] root = .ok tree) (built : build machineId path d = .ok n) :
    targetProblems tree path n =
      (d.targets.filter fun target => !root.resolves machineId path target.2).map fun target =>
        .unresolvedTarget n.id target.2 target.1 := by
  rw [Definition.targets, ← targets_of_transitions (builds_of_build built).on, targetProblems,
    List.filter_flatMap, List.map_flatMap]
  refine List.flatMap_congr fun entry _ => ?_
  rw [List.filter_filterMap, List.map_filterMap]
  refine List.filterMap_congr fun t _ => ?_
  cases t.target with
  | none => rfl
  | some target =>
    rw [Option.bind_some, resolve_isSome_eq h]
    cases resolved : root.resolves machineId path target <;> simp [Option.filter, resolved]

/-- The checks on a node find what is wrong with its definition. -/
theorem problemsAt_eq (h : build machineId [] root = .ok tree) (built : build machineId path d = .ok n) :
    initialProblems n ++ targetProblems tree path n = root.violationsAt machineId path d := by
  rw [initialProblems_eq built, targetProblems_eq h built, (builds_of_build built).id, Definition.violationsAt]

/-- The checks on the tree find the violations of the definition. -/
theorem problems_eq (h : build machineId [] root = .ok tree) :
    problems tree = root.violations machineId := by
  rw [problems, Definition.violations, Definition.repeated_eq_repeats, registrations_map_fst h]
  congr 1
  have each := forall₂_nodes h
  generalize root.placed [] = ds at each ⊢
  generalize tree.nodes [] = ns at each ⊢
  induction each with
  | nil => rfl
  | @cons e e' ds ns first _ ih =>
    obtain ⟨path, n⟩ := e'
    obtain ⟨rfl, built⟩ := first
    rw [List.flatMap_cons, List.flatMap_cons, ih, ← problemsAt_eq h built]

/-- A tree can be built if every transition is one. -/
theorem exists_build (parses : d.Parses) (path : List String) : ∃ n, build machineId path d = .ok n := by
  induction parses generalizing path with
  | @intro d means below ih =>
    obtain ⟨id, kind, initial, description, on, children⟩ := d
    obtain ⟨ts, made⟩ : ∃ ts, transitions on = .ok ts := by
      refine exists_mapM_eq_ok fun entry mem => ?_
      obtain ⟨found, made⟩ : ∃ found, entry.2.mapM Declared.transition? = .ok found := by
        refine exists_mapM_eq_ok fun declared listed => ?_
        cases declared with
        | transition t => exact ⟨some t, rfl⟩
        | misdirected target => exact ⟨none, rfl⟩
        | invalid v => exact absurd rfl (means entry mem _ listed v)
      exact ⟨_, bind_eq_ok_iff.2 ⟨found, made, rfl⟩⟩
    obtain ⟨ns, built⟩ : ∃ ns, buildAll machineId path children = .ok ns := by
      clear means below
      simp only at ih
      induction children with
      | nil => exact ⟨[], rfl⟩
      | cons c children rest =>
        rw [List.forall_mem_cons] at ih
        obtain ⟨n, built⟩ := ih.1 (path ++ [c.1])
        obtain ⟨ns, all⟩ := rest ih.2
        exact ⟨_, buildAll_eq_ok_iff.2 (.cons (b := (c.1, n)) ⟨rfl, built⟩ (buildAll_eq_ok_iff.1 all))⟩
    rw [build, made]
    change ∃ n, (buildAll machineId path children >>= _) = _
    rw [built]
    exact ⟨_, rfl⟩

end Node

/-! ## Making machines -/

section

variable {d : MachineDefinition} {id : String} {root : Node}

theorem ofDefinition_of_valid (named : d.id.getD (some defaultId) = some id)
    (built : Node.build id [] d.root = .ok root) (directed : d.root.misdirections = [])
    (checked : problems root = []) : ofDefinition d = .ok ⟨id, root, d.context⟩ := by
  simp only [ofDefinition, named, built, directed, checked, bind, Except.bind]
  rfl

theorem ofDefinition_of_problems (named : d.id.getD (some defaultId) = some id)
    (built : Node.build id [] d.root = .ok root) (directed : d.root.misdirections = [])
    (found : problems root ≠ []) : ofDefinition d = .error (.invalidMachine id (problems root)) := by
  simp only [ofDefinition, named, built, directed, bind, Except.bind]
  cases list : problems root with
  | nil => exact absurd list found
  | cons problem problems => rfl

/-- **A machine is made of a definition exactly if it is valid**, and else all of its violations are reported,
one line for each. Every target must be a text: looking up another one fails before anything is reported. -/
theorem ofDefinition_validates (named : d.id.getD (some defaultId) = some id) (parses : d.root.Parses)
    (directed : d.root.misdirections = []) :
    ((∃ m, ofDefinition d = .ok m) ↔ d.root.Valid id) ∧
    (¬ d.root.Valid id → ∃ f, ofDefinition d = .error f ∧ f = .invalidMachine id (d.root.violations id) ∧
      f.message = "Test machine '" ++ id ++ "' is invalid:\n" ++
        "\n".intercalate ((d.root.violations id).map Problem.message)) := by
  obtain ⟨root, built⟩ : ∃ root, Node.build id [] d.root = .ok root := Node.exists_build parses []
  have listed : problems root = d.root.violations id := Node.problems_eq built
  have valid_iff : problems root = [] ↔ d.root.Valid id := by
    rw [listed, Definition.violations_eq_nil_iff]
  refine ⟨⟨?_, fun valid => ?_⟩, fun invalid => ?_⟩
  · rintro ⟨m, made⟩
    rw [← valid_iff]
    by_contra found
    cases made.symm.trans (ofDefinition_of_problems named built directed found)
  · exact ⟨_, ofDefinition_of_valid named built directed (valid_iff.2 valid)⟩
  · rw [← listed]
    exact ⟨_, ofDefinition_of_problems named built directed fun checked => invalid (valid_iff.1 checked), rfl, rfl⟩

end

/-! ## A faulty hatch -/

/-- A hatch that starts nowhere, with two definitions of one id. -/
def faultyHatch : MachineDefinition where
  id := some (some "hatch")
  root := {
    id := some "hatch"
    initial := some "ajar"
    children := [
      ("shut", {
        id := some "hatch.open"
        on := [("push", [.transition { target := some ".far" }, .transition {}]),
          ("pull", [.transition { target := some "#hatch.open" }, .transition { target := some "open.far" }])] }),
      ("open", { children := [("wide", {})] })] }

theorem faultyHatch_parses : faultyHatch.root.Parses := by
  have leaf : ∀ {d : Definition}, d.on = [] → d.children = [] → d.Parses := by
    intro d silent childless
    exact .intro (by rw [silent]; nofun) (by rw [childless]; nofun)
  refine .intro nofun ?_
  simp only [faultyHatch, List.forall_mem_cons]
  refine ⟨.intro ?_ nofun, .intro nofun ?_, nofun⟩
  · simp
  · simp only [List.forall_mem_cons]
    exact ⟨leaf rfl rfl, nofun⟩

/-- Children come before their parent where ids are registered, and after it where they are checked. -/
theorem faultyHatch_reported : ofDefinition faultyHatch = .error (.invalidMachine "hatch" [
    .duplicateId "hatch.open", .unknownInitial "hatch" "ajar", .unresolvedTarget "hatch.open" ".far" "push",
    .unresolvedTarget "hatch.open" "open.far" "pull", .noInitial "hatch.open"]) := by
  have found : faultyHatch.root.violations "hatch" = [.duplicateId "hatch.open", .unknownInitial "hatch" "ajar",
      .unresolvedTarget "hatch.open" ".far" "push", .unresolvedTarget "hatch.open" "open.far" "pull",
      .noInitial "hatch.open"] := by
    decide
  have named : faultyHatch.id.getD (some defaultId) = some "hatch" := rfl
  obtain ⟨-, reports⟩ := ofDefinition_validates named faultyHatch_parses rfl
  have invalid : ¬ faultyHatch.root.Valid "hatch" := by
    rw [← Definition.violations_eq_nil_iff, found]
    nofun
  obtain ⟨f, failed, rfl, -⟩ := reports invalid
  rw [failed, found]

/-- A hatch with a target that is a number. -/
def numberedHatch : MachineDefinition where
  id := some (some "hatch")
  root := {
    id := some "hatch"
    initial := some "shut"
    children := [("shut", { on := [("push", Declared.allOfValue (.mapping [(.text "target", .int 5)]))] })] }

/-- A target that is no text is not reported as one that is not there: it is looked up like a text, and this
fails. -/
theorem numberedHatch_unreported : numberedHatch.root.Parses ∧
    ofDefinition numberedHatch = .error (.noField (.int 5) "startswith") ∧
    ¬ ∃ problems, ofDefinition numberedHatch = .error (.invalidMachine "hatch" problems) := by
  have failed : ofDefinition numberedHatch = .error (.noField (.int 5) "startswith") := by
    rfl
  refine ⟨?_, failed, ?_⟩
  · refine .intro nofun ?_
    simp only [numberedHatch, List.forall_mem_cons]
    refine ⟨.intro ?_ nofun, nofun⟩
    simp only [List.forall_mem_cons]
    refine ⟨?_, nofun⟩
    intro declared mem
    cases mem with
    | head => nofun
    | tail _ mem => cases mem
  · rintro ⟨problems, reported⟩
    cases failed.symm.trans reported

end StateWalk.Machine
