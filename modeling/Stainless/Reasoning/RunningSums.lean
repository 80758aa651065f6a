import Mathlib.Algebra.BigOperators.Group.List.Basic
import Mathlib.Data.Nat.ModEq

/-!
# Running sums

The sums that a checksum runs over a list of numbers: the first adds up the numbers, the second adds up
the first sums; both are taken modulo `m`.
-/

namespace Reasoning

def runningSums (m : Nat) (sums : Nat × Nat) (x : Nat) : Nat × Nat :=
  let sum := (sums.1 + x) % m
  (sum, (sums.2 + sum) % m)

variable {m : Nat}

theorem runningSums_lt (hm : 0 < m) (sums : Nat × Nat) (x : Nat) :
    (runningSums m sums x).1 < m ∧ (runningSums m sums x).2 < m :=
  ⟨Nat.mod_lt _ hm, Nat.mod_lt _ hm⟩

theorem foldl_runningSums_lt (hm : 0 < m) {sums : Nat × Nat} (hsums : sums.1 < m ∧ sums.2 < m)
    (xs : List Nat) :
    (xs.foldl (runningSums m) sums).1 < m ∧ (xs.foldl (runningSums m) sums).2 < m := by
  induction xs generalizing sums with
  | nil => exact hsums
  | cons x xs ih => exact ih (runningSums_lt hm sums x)

/-- The first sum forgets the order of the numbers. -/
theorem foldl_runningSums_fst (sums : Nat × Nat) (xs : List Nat) :
    (xs.foldl (runningSums m) sums).1 ≡ sums.1 + xs.sum [MOD m] := by
  induction xs generalizing sums with
  | nil => exact Nat.ModEq.refl _
  | cons x xs ih =>
      have hstep : (sums.1 + x) % m + xs.sum ≡ sums.1 + x + xs.sum [MOD m] :=
        (Nat.mod_modEq _ m).add_right _
      rw [List.foldl_cons, List.sum_cons, ← Nat.add_assoc]
      exact (ih (runningSums m sums x)).trans hstep

/-- The first sum tells two lists apart that differ in one place. -/
theorem runningSums_detect {x y : Nat} (hx : x < m) (hy : y < m) (hne : x ≠ y) (sums : Nat × Nat)
    (front back : List Nat) :
    ((front ++ x :: back).foldl (runningSums m) sums).1 ≠
      ((front ++ y :: back).foldl (runningSums m) sums).1 := by
  intro heq
  have hsum : sums.1 + front.sum + x + back.sum ≡ sums.1 + front.sum + y + back.sum [MOD m] := by
    have hleft := foldl_runningSums_fst (m := m) sums (front ++ x :: back)
    have hright := foldl_runningSums_fst (m := m) sums (front ++ y :: back)
    rw [heq] at hleft
    have hboth := hleft.symm.trans hright
    simpa only [List.sum_append, List.sum_cons, Nat.add_assoc] using hboth
  have hmod : x ≡ y [MOD m] :=
    Nat.ModEq.add_left_cancel' _ (Nat.ModEq.add_right_cancel' _ hsum)
  exact hne (hmod.eq_of_lt_of_lt hx hy)

end Reasoning
