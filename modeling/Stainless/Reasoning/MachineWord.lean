import Mathlib.Init

/-!
# Checked machine arithmetic

Numbers up to a limit.  An operation whose exact result is no such number fails, so a program that
returns has computed over the unbounded numbers.
-/

namespace Reasoning

/-- A number of an unsigned machine type. -/
structure Word (limit : Nat) where
  value : Nat
  inRange : value ≤ limit
deriving DecidableEq

/-- How a computation with machine numbers ends early. -/
inductive Failure (ε : Type)
  | thrown (error : ε)
  -- a result out of range, or a division by zero
  | arithmetic
deriving DecidableEq

namespace Word

variable {ε : Type} {limit : Nat}

@[ext] theorem ext {a b : Word limit} (h : a.value = b.value) : a = b := by
  cases a
  cases b
  cases h
  rfl

/-- The machine number of an exact result. -/
def checked (value : Nat) : Except (Failure ε) (Word limit) :=
  if h : value ≤ limit then .ok ⟨value, h⟩ else .error .arithmetic

def add (a b : Word limit) : Except (Failure ε) (Word limit) := checked (a.value + b.value)

def sub (a b : Word limit) : Except (Failure ε) (Word limit) :=
  if b.value ≤ a.value then checked (a.value - b.value) else .error .arithmetic

def mul (a b : Word limit) : Except (Failure ε) (Word limit) := checked (a.value * b.value)

def div (a b : Word limit) : Except (Failure ε) (Word limit) :=
  if b.value = 0 then .error .arithmetic else checked (a.value / b.value)

def mod (a b : Word limit) : Except (Failure ε) (Word limit) :=
  if b.value = 0 then .error .arithmetic else checked (a.value % b.value)

/-! ## 1. Results in range -/

theorem checked_ok {value : Nat} (h : value ≤ limit) :
    (checked value : Except (Failure ε) (Word limit)) = .ok ⟨value, h⟩ := dif_pos h

theorem add_ok {a b : Word limit} (h : a.value + b.value ≤ limit) :
    (a.add b : Except (Failure ε) (Word limit)) = .ok ⟨a.value + b.value, h⟩ := checked_ok h

theorem sub_ok {a b : Word limit} (h : b.value ≤ a.value) :
    (a.sub b : Except (Failure ε) (Word limit)) =
      .ok ⟨a.value - b.value, Nat.le_trans (Nat.sub_le _ _) a.inRange⟩ := by
  rw [sub, if_pos h]
  exact checked_ok _

theorem mul_ok {a b : Word limit} (h : a.value * b.value ≤ limit) :
    (a.mul b : Except (Failure ε) (Word limit)) = .ok ⟨a.value * b.value, h⟩ := checked_ok h

theorem div_ok {a b : Word limit} (h : b.value ≠ 0) :
    (a.div b : Except (Failure ε) (Word limit)) =
      .ok ⟨a.value / b.value, Nat.le_trans (Nat.div_le_self _ _) a.inRange⟩ := by
  rw [div, if_neg h]
  exact checked_ok _

theorem mod_ok {a b : Word limit} (h : b.value ≠ 0) :
    (a.mod b : Except (Failure ε) (Word limit)) =
      .ok ⟨a.value % b.value, Nat.le_trans (Nat.mod_le _ _) a.inRange⟩ := by
  rw [mod, if_neg h]
  exact checked_ok _

end Word

end Reasoning
