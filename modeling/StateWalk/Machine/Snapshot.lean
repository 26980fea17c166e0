import StateWalk.Event
import StateWalk.Text.Dotted
import StateWalk.Text.Names

/-!
# Machine snapshots

A snapshot is a machine's state value with the context and the event that led to it. The state
value is a text, for a node below the root, or a mapping from a node to the value inside it.

`paths` lists the dotted paths of the active nodes leaf by leaf, each leaf before its ancestors.
-/

namespace StateWalk

namespace Text

/-- The dotted names of a path and its beginnings except the empty one, the longest first. -/
def dottedBeginnings (path : List String) : List String :=
  (List.range path.length).reverse.map fun n => dotted (path.take (n + 1))

end Text

namespace Value

mutual

/-- The dotted paths of the nodes that a state value names below `path`. -/
def activePaths (path : List String) : Value → List String
  | text s | textMember _ s => Text.dotted (path ++ [s]) :: Text.dottedBeginnings path
  | mapping es => activePathsAmong path [] es
  | _ => Text.dottedBeginnings path

/-- Add the paths that the entries of a state value name to those that are found. -/
def activePathsAmong (path found : List String) : List (Value × Value) → List String
  | [] => found
  | (k, v) :: es =>
    activePathsAmong path ((activePaths (path ++ [k.label]) v).foldl Text.addNew found) es

end

end Value

structure Snapshot where
  value : Value
  context : Value := .null
  event : Option Event := none
  deriving Inhabited

namespace Snapshot

def toValue (s : Snapshot) : Value :=
  .snapshot s.value s.context (Event.orNull s.event)

def key (s : Snapshot) : Except Fault String := s.toValue.key

/-- The dotted paths of the active nodes. -/
def paths (s : Snapshot) : List String := s.value.activePaths []

/-- The path is that of an active node. -/
def isActive (s : Snapshot) (path : String) : Bool := s.paths.contains path

/-- Whether a key names an active node, for values that can be asked. Snapshots can; another value
with a field `matches` fails to answer. -/
def hasActive : Value → Option (String → Except Fault Bool)
  | .snapshot value _ _ => some fun key => .ok ((value.activePaths []).contains key)
  | v =>
    match v.field "matches" with
    | .ok operation => some fun _ => .error operation.refusal
    | .error _ => none

/-- The value and the context agree. -/
def equals (s t : Snapshot) : Bool := s.toValue.equals t.toValue

end Snapshot

end StateWalk
