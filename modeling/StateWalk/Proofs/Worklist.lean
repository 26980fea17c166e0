import StateWalk.Proofs.Outcome

/-!
# Worklists

A worklist takes the first item that is pending, files it with those that are done, and goes on with what
the expansion of the item makes of the pending ones. Its budget bounds how many items it takes.

The items that are done in the end say how much budget was needed, so one run that ends tells what
every budget gives (`worklist_eq_ite`). Where no expansion fails, a run ends or uses up its budget
(`worklist_eq_ok_or_error`), and it ends where the items are bounded (`exists_worklist_of_bounded`).
-/

namespace StateWalk

open Outcome

variable {τ : Type}

/-- Expand the pending items until none is left, at most `budget` of them; `spent` is the fault of a run
that would have to go on. -/
def worklist (expand : List τ → τ → List τ → Except Fault (List τ)) (spent : Fault) :
    (budget : Nat) → (done pending : List τ) → Except Fault (List τ)
  | _, done, [] => .ok done
  | 0, _, _ :: _ => .error spent
  | budget + 1, done, x :: pending => do
    worklist expand spent budget (done ++ [x]) (← expand done x pending)

variable {expand : List τ → τ → List τ → Except Fault (List τ)} {spent : Fault} {budget : Nat}
  {done pending all : List τ}

@[simp]
theorem worklist_nil : worklist expand spent budget done [] = .ok done := by
  cases budget <;> rfl

theorem worklist_succ_cons_eq_ok_iff {x : τ} :
    worklist expand spent (budget + 1) done (x :: pending) = .ok all ↔
      ∃ rest, expand done x pending = .ok rest ∧
        worklist expand spent budget (done ++ [x]) rest = .ok all := bind_eq_ok_iff

/-- What is done stays done. -/
theorem prefix_of_worklist (run : worklist expand spent budget done pending = .ok all) :
    done <+: all := by
  induction budget generalizing done pending with
  | zero =>
    cases pending with
    | nil =>
      cases run
      exact List.prefix_rfl
    | cons x pending => cases run
  | succ budget ih =>
    cases pending with
    | nil =>
      cases run
      exact List.prefix_rfl
    | cons x pending =>
      obtain ⟨rest, -, run⟩ := worklist_succ_cons_eq_ok_iff.1 run
      exact (List.prefix_append done [x]).trans (ih run)

theorem length_lt_of_worklist {x : τ} (run : worklist expand spent budget done (x :: pending) = .ok all) :
    done.length < all.length := by
  cases budget with
  | zero => cases run
  | succ budget =>
    obtain ⟨rest, -, run⟩ := worklist_succ_cons_eq_ok_iff.1 run
    have longer := (prefix_of_worklist run).length_le
    rwa [List.length_append, List.length_singleton] at longer

/-- A run that ends with all of these items ends so with every budget that they fit in, and uses up any
other. -/
theorem worklist_eq_ite (run : worklist expand spent budget done pending = .ok all) (spent' : Fault)
    (budget' : Nat) : worklist expand spent' budget' done pending =
      if all.length ≤ done.length + budget' then .ok all else .error spent' := by
  induction budget generalizing done pending budget' with
  | zero =>
    cases pending with
    | nil =>
      cases run
      rw [worklist_nil, if_pos (Nat.le_add_right _ _)]
    | cons x pending => cases run
  | succ budget ih =>
    cases pending with
    | nil =>
      cases run
      rw [worklist_nil, if_pos (Nat.le_add_right _ _)]
    | cons x pending =>
      have longer := length_lt_of_worklist run
      obtain ⟨rest, expanded, run⟩ := worklist_succ_cons_eq_ok_iff.1 run
      cases budget' with
      | zero =>
        rw [Nat.add_zero, if_neg (Nat.not_le.2 longer)]
        rfl
      | succ budget' =>
        have size : (done ++ [x]).length + budget' = done.length + (budget' + 1) := by
          rw [List.length_append, List.length_singleton, Nat.add_right_comm, Nat.add_assoc]
        calc worklist expand spent' (budget' + 1) done (x :: pending)
            = worklist expand spent' budget' (done ++ [x]) rest := by
              rw [worklist, expanded]
              rfl
          _ = if all.length ≤ done.length + (budget' + 1) then .ok all else .error spent' := by
              rw [ih run, size]

/-- A budget that was enough is enough when there is more of it. -/
theorem worklist_of_le (run : worklist expand spent budget done pending = .ok all) (spent' : Fault)
    {budget' : Nat} (more : budget ≤ budget') :
    worklist expand spent' budget' done pending = .ok all := by
  have fits : all.length ≤ done.length + budget := by
    by_contra long
    have same := worklist_eq_ite run spent budget
    rw [run, if_neg long] at same
    cases same
  rw [worklist_eq_ite run, if_pos (Nat.le_trans fits (Nat.add_le_add_left more _))]

/-- Where no expansion fails, a run ends or uses up its budget. -/
theorem worklist_eq_ok_or_error {Inv : List τ → List τ → Prop}
    (step : ∀ done x pending, Inv done (x :: pending) →
      ∃ rest, expand done x pending = .ok rest ∧ Inv (done ++ [x]) rest)
    (start : Inv done pending) (spent : Fault) (budget : Nat) :
    (∃ all, worklist expand spent budget done pending = .ok all) ∨
      worklist expand spent budget done pending = .error spent := by
  induction budget generalizing done pending with
  | zero =>
    cases pending with
    | nil => exact .inl ⟨done, rfl⟩
    | cons x pending => exact .inr rfl
  | succ budget ih =>
    cases pending with
    | nil => exact .inl ⟨done, rfl⟩
    | cons x pending =>
      obtain ⟨rest, expanded, next⟩ := step done x pending start
      rw [worklist, expanded]
      exact ih next

/-- Where no expansion fails and never more than `bound` items are done or pending, a run ends within a
budget of that many. -/
theorem exists_worklist_of_bounded {Inv : List τ → List τ → Prop} {bound : Nat}
    (step : ∀ done x pending, Inv done (x :: pending) →
      ∃ rest, expand done x pending = .ok rest ∧ Inv (done ++ [x]) rest)
    (bounded : ∀ done pending, Inv done pending → done.length + pending.length ≤ bound)
    (start : Inv done pending) (spent : Fault) (enough : bound ≤ done.length + budget) :
    ∃ all, worklist expand spent budget done pending = .ok all ∧ Inv all [] := by
  induction budget generalizing done pending with
  | zero =>
    cases pending with
    | nil => exact ⟨done, rfl, start⟩
    | cons x pending =>
      have room := bounded _ _ start
      rw [List.length_cons] at room
      omega
  | succ budget ih =>
    cases pending with
    | nil => exact ⟨done, rfl, start⟩
    | cons x pending =>
      obtain ⟨rest, expanded, next⟩ := step done x pending start
      have enough : bound ≤ (done ++ [x]).length + budget := by
        rw [List.length_append, List.length_singleton]
        omega
      obtain ⟨all, run, last⟩ := ih next enough
      exact ⟨all, by rw [worklist, expanded]; exact run, last⟩

/-- A limit on a run from one item: the run ends as it does without the limit if its items are not more,
and else reports the limit. -/
theorem worklist_limited {x : τ} (run : worklist expand spent budget [] [x] = .ok all) (limit : Int) :
    worklist expand (.limitExceeded limit) limit.toNat [] [x] =
      if (all.length : Int) ≤ limit then .ok all else .error (.limitExceeded limit) := by
  have some_item : 0 < all.length := length_lt_of_worklist run
  have fits : all.length ≤ ([] : List τ).length + limit.toNat ↔ (all.length : Int) ≤ limit := by
    rw [List.length_nil]
    omega
  rw [worklist_eq_ite run]
  by_cases h : (all.length : Int) ≤ limit
  · rw [if_pos h, if_pos (fits.2 h)]
  · rw [if_neg h, if_neg fun le => h (fits.1 le)]

end StateWalk
