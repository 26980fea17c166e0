/-!
# Problems of a machine definition

What can be wrong with a definition whose parts are all of the right kind, and the line that
reports it.
-/

namespace StateWalk.Machine

inductive Problem where
  | duplicateId (id : String)
  | noInitial (id : String)
  | unknownInitial (id initial : String)
  | unresolvedTarget (id target event : String)
  deriving DecidableEq, Repr

def Problem.message : Problem → String
  | duplicateId id => s!"Duplicate state id '#{id}'"
  | noInitial id => s!"Compound state '#{id}' has no initial state"
  | unknownInitial id initial => s!"Initial state '{initial}' of '#{id}' does not exist"
  | unresolvedTarget id target event =>
    s!"State '#{id}' has an unresolvable target '{target}' for event '{event}'"

end StateWalk.Machine
