import Mathlib.Init

/-!
# Computations with a budget

Recursive functions that take a bound on the depth of their calls and give nothing when it is too
small.
-/

namespace Reasoning

variable {α β : Type}

/-- With every budget from some one on, the computation gives `a`. -/
def Yields (compute : Nat → Option α) (a : α) : Prop :=
  ∃ least, ∀ budget, least ≤ budget → compute budget = some a

variable {f g : Nat → Option α} {a : α}

theorem Yields.unique {a' : α} (h : Yields f a) (h' : Yields f a') : a = a' := by
  have ⟨least, hleast⟩ := h
  have ⟨least', hleast'⟩ := h'
  have heq := hleast (max least least') (Nat.le_max_left _ _)
  rw [hleast' (max least least') (Nat.le_max_right _ _)] at heq
  exact (Option.some.inj heq).symm

theorem yields_some (a : α) : Yields (fun _ ↦ some a) a := ⟨0, fun _ _ ↦ rfl⟩

/-- One call deeper. -/
theorem Yields.succ (h : Yields g a) (hf : ∀ budget, f (budget + 1) = g budget) : Yields f a := by
  have ⟨least, hleast⟩ := h
  refine ⟨least + 1, fun budget hbudget ↦ ?_⟩
  cases budget with
  | zero => omega
  | succ budget =>
      rw [hf]
      exact hleast budget (by omega)

theorem Yields.bind {next : α → Nat → Option β} {b : β} (h : Yields f a) (hnext : Yields (next a) b) :
    Yields (fun budget ↦ f budget >>= fun a ↦ next a budget) b := by
  have ⟨least, hleast⟩ := h
  have ⟨least', hleast'⟩ := hnext
  refine ⟨max least least', fun budget hbudget ↦ ?_⟩
  show (f budget).bind (fun a ↦ next a budget) = some b
  rw [hleast budget (by omega), Option.bind_some, hleast' budget (by omega)]

end Reasoning
