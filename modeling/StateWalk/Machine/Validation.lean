import StateWalk.Machine.Node

/-!
# Checking a node tree

`problems` lists everything that is wrong with a tree: first every repeated registration of an id,
then for every node its initial state and its unresolvable targets.
-/

namespace StateWalk.Machine

/-- The ids that stand in the list already when they come up again. -/
def repeated : (seen ids : List String) → List String
  | _, [] => []
  | seen, id :: ids =>
    if seen.contains id then id :: repeated seen ids else repeated (id :: seen) ids

def initialProblems (n : Node) : List Problem :=
  if n.children.isEmpty then []
  else
    match n.initial with
    | none => [.noInitial n.id]
    | some initial =>
      if n.children.any fun child => child.1 == initial then []
      else [.unknownInitial n.id initial]

/-- The targets of a node that mean no node, in the order of their declaration. -/
def targetProblems (root : Node) (path : List String) (n : Node) : List Problem :=
  n.on.flatMap fun (type, ts) => ts.filterMap fun t =>
    t.target.bind fun target =>
      if (resolve root path target).isSome then none else some (.unresolvedTarget n.id target type)

def problems (root : Node) : List Problem :=
  (repeated [] ((root.registrations []).map Prod.fst)).map Problem.duplicateId ++
    (root.nodes []).flatMap fun (path, n) => initialProblems n ++ targetProblems root path n

end StateWalk.Machine
