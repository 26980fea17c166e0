import StateWalk.Machine.Definition
import StateWalk.Text.Dotted

/-!
# The node tree of a machine

A node is addressed by its path, the keys from the root down to it; the root has the empty path.
`Node.at?` reads an address, `Node.nodes` lists all nodes with their addresses, every node before
its children, and `Node.registrations` lists the ids, every node after its children.

`Node.entry` is the way from a node down its initial children to a node without children.
-/

namespace StateWalk.Machine

structure Node where
  id : String
  kind : String
  initial : Option String
  description : Option String
  on : List (String × List Transition)
  children : List (String × Node)

namespace Node

def isFinal (n : Node) : Bool := n.kind == "final"

def display (n : Node) : String := s!"StateNode({n.id})"

/-- The id of a node: an explicit one that is not empty, else the machine's id and the path. -/
def idAt (machineId : String) (path : List String) (explicit : Option String) : String :=
  match explicit with
  | some "" | none => Text.dotted (machineId :: path)
  | some id => id

/-- The kind of a node: an explicit one that is not empty, else whether it has children. -/
def kindOf (explicit : Option String) (hasChildren : Bool) : String :=
  match explicit with
  | some "" | none => if hasChildren then "compound" else "atomic"
  | some kind => kind

/-- The declared transitions of a node, unless something else stands in the place of one. -/
def transitions (on : Declarations) : Except Fault (List (String × List Transition)) :=
  on.mapM fun (type, declared) => do
    let ts ← declared.mapM Declared.transition?
    return (type, ts.filterMap fun t => t)

mutual

/-- The tree of a definition that stands at `path`. -/
def build (machineId : String) (path : List String) : Definition → Except Fault Node
  | ⟨id, kind, initial, description, on, children⟩ => do
    let on ← transitions on
    let children ← buildAll machineId path children
    return ⟨idAt machineId path id, kindOf kind !children.isEmpty, initial, description, on, children⟩

def buildAll (machineId : String) (path : List String) :
    List (String × Definition) → Except Fault (List (String × Node))
  | [] => .ok []
  | (key, definition) :: rest => do
    let node ← build machineId (path ++ [key]) definition
    let nodes ← buildAll machineId path rest
    return (key, node) :: nodes

end

/-- The node that a path leads to. -/
def at? (n : Node) : List String → Option Node
  | [] => some n
  | key :: path => (Keyed.find? n.children key).bind fun child => child.at? path

mutual

/-- A node at `path` and its descendants with their addresses, every node before its children. -/
def nodes (path : List String) : Node → List (List String × Node)
  | n@⟨_, _, _, _, _, children⟩ => (path, n) :: nodesAmong path children

def nodesAmong (path : List String) : List (String × Node) → List (List String × Node)
  | [] => []
  | (key, n) :: rest => nodes (path ++ [key]) n ++ nodesAmong path rest

end

mutual

/-- The ids of a node at `path` and of its descendants, every node after its children. -/
def registrations (path : List String) : Node → List (String × List String)
  | ⟨id, _, _, _, _, children⟩ => registrationsAmong path children ++ [(id, path)]

def registrationsAmong (path : List String) : List (String × Node) → List (String × List String)
  | [] => []
  | (key, n) :: rest => registrations (path ++ [key]) n ++ registrationsAmong path rest

end

mutual

/-- The keys of the initial children from a node down to one without children. -/
def entry : Node → List String
  | ⟨_, _, initial, _, _, children⟩ => entryAmong initial children

def entryAmong (initial : Option String) : List (String × Node) → List String
  | [] => []
  | (key, n) :: rest => if initial = some key then key :: entry n else entryAmong initial rest

end

end Node

/-- A path and its beginnings, the longest first. -/
def ancestors : List String → List (List String)
  | [] => [[]]
  | key :: path => (ancestors path).map (key :: ·) ++ [[]]

/-- The path of the node with an id. -/
def pathOfId (root : Node) (id : String) : Option (List String) :=
  Keyed.find? (root.registrations []) id

/-- `keys`, followed from the node at `path`, if they lead to a node. -/
def descend (root : Node) (path : List String) (keys : List (List Char)) : Option (List String) :=
  let target := path ++ keys.map String.ofList
  if (root.at? target).isSome then some target else none

/-- The node that a target means in the node at `source`: `#id` by its id, `.a.b` below the
source, and `a.b` below its parent; the root counts as its own parent. -/
def resolve (root : Node) (source : List String) (target : String) : Option (List String) :=
  match target.toList with
  | '#' :: id => pathOfId root (String.ofList id)
  | '.' :: keys => descend root source (Text.splitAtDots keys)
  | keys => descend root source.dropLast (Text.splitAtDots keys)

end StateWalk.Machine
