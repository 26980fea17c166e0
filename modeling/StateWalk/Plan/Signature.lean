import StateWalk.Plan.Basic

/-!
# Paths with the same events

`Plan.distinctSignatures` keeps, of the paths of a plan with the same event types, the first one.
-/

namespace StateWalk.Plan

variable {σ : Type}

/-- The paths whose signature is neither in `seen` nor that of an earlier path. Signatures are
compared as keys, so each must be one. -/
def firstOfSignature (seen : List Value) : List (Path σ) → Except Fault (List (Path σ))
  | [] => .ok []
  | p :: ps => do
    let signature := Value.tuple p.signature
    signature.checkKey
    if KeyType.isAmong seen signature then firstOfSignature seen ps
    else return p :: (← firstOfSignature (signature :: seen) ps)

def distinctSignatures (plan : Plan σ) : Except Fault (Plan σ) := do
  return { plan with paths := ← firstOfSignature [] plan.paths }

end StateWalk.Plan
