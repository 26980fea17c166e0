import StateWalk.Value.Order

/-!
# Types of keys

States and events are known by their keys. The library's own keys are texts, but whoever brings
functions that compute keys may compute any values. A search, a model and a coverage record only
need what `KeyType` asks for: to file things under a key, to compare two keys, and to show them.

In a lawful type all of this is plain equality, and nothing is refused; texts are one.
-/

namespace StateWalk

/-- A type of keys. -/
class KeyType (κ : Type) where
  ofText : String → κ
  /-- A key inside a running text. -/
  label : κ → String
  /-- A key on a list of keys. -/
  display : κ → String
  /-- Equality of keys. -/
  equals : κ → κ → Bool
  /-- Two keys are one place in a table. -/
  same : κ → κ → Bool
  /-- Fails for a key that nothing can be filed under. -/
  check : κ → Except Fault Unit
  /-- The key that a collection of keys is asked for in place of this one. -/
  sought : κ → κ
  /-- The keys in ascending order. -/
  sort : List κ → Except Fault (List κ)

namespace KeyType

instance : KeyType String where
  ofText := id
  label := id
  display s := String.ofList (Text.quoted s)
  equals k l := k == l
  same k l := k == l
  check _ := .ok ()
  sought k := k
  sort keys := .ok (keys.mergeSort fun k l => decide (k ≤ l))

instance : KeyType Value where
  ofText := .text
  label := Value.label
  display v := String.ofList v.display
  equals := Value.equals
  same := Value.sameKey
  check := Value.checkKey
  sought := Value.sought
  sort := Value.sort

variable {κ : Type} [KeyType κ]

/-- The key is on the list. -/
def isAmong (keys : List κ) (key : κ) : Bool := keys.any fun k => same k key

/-- The first sequence of keys begins the second one. -/
def begins : List κ → List κ → Bool
  | [], _ => true
  | _ :: _, [] => false
  | k :: ks, l :: ls => equals k l && begins ks ls

end KeyType

/-- Keys that are one place in a table exactly when they are equal, that are never refused, and that
collections are asked for as they are. -/
class LawfulKeyType (κ : Type) [KeyType κ] : Prop where
  same_iff (k l : κ) : KeyType.same k l = true ↔ k = l
  equals_iff (k l : κ) : KeyType.equals k l = true ↔ k = l
  check_eq_ok (k : κ) : KeyType.check k = .ok ()
  sought_eq (k : κ) : KeyType.sought k = k

instance : LawfulKeyType String where
  same_iff k l := by simp [KeyType.same]
  equals_iff k l := by simp [KeyType.equals]
  check_eq_ok _ := rfl
  sought_eq _ := rfl

namespace KeyType

variable {κ : Type} [KeyType κ] [LawfulKeyType κ]

theorem isAmong_iff (keys : List κ) (key : κ) : isAmong keys key = true ↔ key ∈ keys := by
  simp only [isAmong, List.any_eq_true, LawfulKeyType.same_iff]
  exact ⟨fun ⟨k, mem, eq⟩ => eq ▸ mem, fun mem => ⟨key, mem, rfl⟩⟩

theorem begins_iff (ks ls : List κ) : begins ks ls = true ↔ ks <+: ls := by
  induction ks generalizing ls with
  | nil => simp [begins]
  | cons k ks ih =>
    cases ls with
    | nil => simp [begins]
    | cons l ls => simp [begins, LawfulKeyType.equals_iff, ih, List.cons_prefix_cons]

end KeyType

end StateWalk
