import Mathlib.Data.List.Count
import Mathlib.Data.List.Range
import Mathlib.Logic.Function.Basic

/-!
# Datamancer.Lib.Permits

How many of the parties numbered from the first on hold a permit of a semaphore. A party that
takes or gives back its own changes the count by one (`held_update`), so what is left of the
semaphore and what is held of it stay in step.
-/

section

universe u

variable {α : Type u} {holds : α → Bool} {party : Nat → α} {n : Nat}

namespace Permits

/-- How many of the first `n` parties hold a permit. -/
def held (holds : α → Bool) (party : Nat → α) (n : Nat) : Nat :=
  (List.range n).countP fun i => holds (party i)

theorem held_succ : held holds party (n + 1) = held holds party n + (holds (party n)).toNat := by
  rw [held, held, List.range_succ, List.countP_append, List.countP_singleton]
  cases holds (party n) <;> rfl

/-- What becomes of the parties that are not counted does not matter. -/
theorem held_update_of_le {i : Nat} (x : α) (h : n ≤ i) :
    held holds (Function.update party i x) n = held holds party n := by
  refine List.countP_congr fun j hj => ?_
  rw [Function.update_of_ne (by have := List.mem_range.mp hj; omega)]

/-- One party changes. -/
theorem held_update {i : Nat} (x : α) (h : i < n) :
    held holds (Function.update party i x) n + (holds (party i)).toNat
      = held holds party n + (holds x).toNat := by
  induction n with
  | zero => omega
  | succ n ih =>
      rw [held_succ, held_succ]
      by_cases hi : i = n
      · subst hi
        rw [held_update_of_le x le_rfl, Function.update_self]
        omega
      · rw [Function.update_of_ne (Ne.symm hi)]
        have := ih (by omega)
        omega

end Permits

end
