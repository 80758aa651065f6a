import Mathlib.Init

/-!
# Loops, pass by pass

A loop is one pass, repeated until a pass ends it.  The number of passes is bounded, and the state in
which the bound is met is kept: two loops that agree at every bound also agree where neither ends.
-/

namespace Reasoning

/-- What one pass of a loop leads to. -/
inductive Pass (α β : Type)
  | again (state : α)
  | done (result : β)

namespace Pass

variable {α α' β β' : Type}

def map (f : α → α') (g : β → β') : Pass α β → Pass α' β'
  | .again a => .again (f a)
  | .done b => .done (g b)

@[simp] theorem map_again (f : α → α') (g : β → β') (a : α) : (again a).map f g = .again (f a) := rfl

@[simp] theorem map_done (f : α → α') (g : β → β') (b : β) :
    (done b : Pass α β).map f g = .done (g b) := rfl

end Pass

section Loops

variable {α α' β β' : Type}

def repeatPasses (pass : α → Pass α β) (exhausted : α → β) : Nat → α → β
  | 0, a => exhausted a
  | fuel + 1, a =>
      match pass a with
      | .again a' => repeatPasses pass exhausted fuel a'
      | .done b => b

/-- A loop whose first pass is not like the later ones. -/
def repeatAfter (first later : α → Pass α β) (exhausted : α → β) : Nat → α → β
  | 0, a => exhausted a
  | fuel + 1, a =>
      match first a with
      | .again a' => repeatPasses later exhausted fuel a'
      | .done b => b

/-! ## 1. What a pass keeps, the loop keeps -/

theorem repeatPasses_rule {I : α → Prop} {Q : β → Prop} {pass : α → Pass α β}
    {exhausted : α → β} (hagain : ∀ a a', I a → pass a = .again a' → I a')
    (hdone : ∀ a b, I a → pass a = .done b → Q b) (hexhausted : ∀ a, I a → Q (exhausted a))
    (fuel : Nat) {a : α} (ha : I a) : Q (repeatPasses pass exhausted fuel a) := by
  induction fuel generalizing a with
  | zero => exact hexhausted a ha
  | succ fuel ih =>
      rw [repeatPasses]
      cases hpass : pass a with
      | again a' => exact ih (hagain a a' ha hpass)
      | done b => exact hdone a b ha hpass

theorem repeatAfter_rule {I : α → Prop} {Q : β → Prop} {first later : α → Pass α β}
    {exhausted : α → β} (hfirst : ∀ a a', I a → first a = .again a' → I a')
    (hfirstDone : ∀ a b, I a → first a = .done b → Q b)
    (hagain : ∀ a a', I a → later a = .again a' → I a')
    (hdone : ∀ a b, I a → later a = .done b → Q b) (hexhausted : ∀ a, I a → Q (exhausted a))
    (fuel : Nat) {a : α} (ha : I a) : Q (repeatAfter first later exhausted fuel a) := by
  cases fuel with
  | zero => exact hexhausted a ha
  | succ fuel =>
      rw [repeatAfter]
      cases hpass : first a with
      | again a' => exact repeatPasses_rule hagain hdone hexhausted fuel (hfirst a a' ha hpass)
      | done b => exact hfirstDone a b ha hpass

/-! ## 2. Loops that agree pass by pass -/

theorem repeatPasses_map (f : α → α') (g : β → β') {pass : α → Pass α β} {pass' : α' → Pass α' β'}
    {exhausted : α → β} {exhausted' : α' → β'} (hpass : ∀ a, pass' (f a) = (pass a).map f g)
    (hexhausted : ∀ a, exhausted' (f a) = g (exhausted a)) (fuel : Nat) (a : α) :
    repeatPasses pass' exhausted' fuel (f a) = g (repeatPasses pass exhausted fuel a) := by
  induction fuel generalizing a with
  | zero => exact hexhausted a
  | succ fuel ih =>
      rw [repeatPasses, repeatPasses, hpass]
      cases pass a with
      | again a' => exact ih a'
      | done b => rfl

/-- A loop that tells its first pass by a flag is a loop with another first pass. -/
theorem repeatPasses_flag (g : β → β') {first later : α → Pass α β}
    {flagged : Bool × α → Pass (Bool × α) β'} {exhausted : α → β} {exhausted' : Bool × α → β'}
    (hfirst : ∀ a, flagged (true, a) = (first a).map (Prod.mk false) g)
    (hlater : ∀ a, flagged (false, a) = (later a).map (Prod.mk false) g)
    (hexhausted : ∀ flag a, exhausted' (flag, a) = g (exhausted a)) (fuel : Nat) (a : α) :
    repeatPasses flagged exhausted' fuel (true, a) = g (repeatAfter first later exhausted fuel a) := by
  cases fuel with
  | zero => exact hexhausted true a
  | succ fuel =>
      rw [repeatPasses, repeatAfter, hfirst]
      cases first a with
      | again a' => exact repeatPasses_map (Prod.mk false) g hlater (hexhausted false) fuel a'
      | done b => rfl

end Loops

end Reasoning
