import Mathlib.Data.List.Basic

/-!
# Runs

Runs of a deterministic system under a condition on its steps, and what an observer sees of them.
-/

namespace Reasoning

variable {σ α γ : Type}

/-- The state after some actions. -/
def run (step : σ → α → σ) (s : σ) (actions : List α) : σ := actions.foldl step s

/-- Every action is allowed in the state it is taken in. -/
def Meets (step : σ → α → σ) (allowed : σ → α → Prop) : σ → List α → Prop
  | _, [] => True
  | s, a :: actions => allowed s a ∧ Meets step allowed (step s a) actions

instance Meets.decidable (step : σ → α → σ) (allowed : σ → α → Prop)
    [∀ s a, Decidable (allowed s a)] : ∀ s actions, Decidable (Meets step allowed s actions)
  | _, [] => inferInstanceAs (Decidable True)
  | s, a :: actions =>
      have := Meets.decidable step allowed (step s a) actions
      inferInstanceAs (Decidable (_ ∧ _))

variable {step : σ → α → σ} {allowed : σ → α → Prop}

@[simp] theorem run_nil (s : σ) : run step s [] = s := rfl

@[simp] theorem run_cons (s : σ) (a : α) (actions : List α) :
    run step s (a :: actions) = run step (step s a) actions := rfl

@[simp] theorem run_append (s : σ) (actions more : List α) :
    run step s (actions ++ more) = run step (run step s actions) more := List.foldl_append

theorem meets_append {s : σ} {actions more : List α} :
    Meets step allowed s (actions ++ more) ↔
      Meets step allowed s actions ∧ Meets step allowed (run step s actions) more := by
  induction actions generalizing s with
  | nil => simp [Meets]
  | cons a actions ih =>
      rw [List.cons_append, Meets, Meets, ih, and_assoc, run_cons]

theorem Meets.mono {allowed' : σ → α → Prop} {s : σ} {actions : List α}
    (h : Meets step allowed s actions) (himp : ∀ s a, allowed s a → allowed' s a) :
    Meets step allowed' s actions := by
  induction actions generalizing s with
  | nil => trivial
  | cons a actions ih => exact ⟨himp _ _ h.1, ih h.2⟩

/-- What every allowed step keeps holds after every allowed run. -/
theorem Meets.invariant {I : σ → Prop} {s : σ} {actions : List α}
    (h : Meets step allowed s actions) (hs : I s)
    (hstep : ∀ s a, I s → allowed s a → I (step s a)) : I (run step s actions) := by
  induction actions generalizing s with
  | nil => exact hs
  | cons a actions ih => exact ih h.2 (hstep s a hs h.1)

/-- A run is allowed exactly if an invariant holds all along it, when at each state that a supporting
invariant describes the allowed steps are those that keep the invariant. -/
theorem meets_iff_always {I J : σ → Prop} (hstep : ∀ s a, J s → J (step s a))
    (hiff : ∀ s a, J s → I s → (allowed s a ↔ I (step s a))) {s : σ} {actions : List α}
    (hJ : J s) (hI : I s) :
    Meets step allowed s actions ↔ ∀ k, I (run step s (actions.take k)) := by
  induction actions generalizing s with
  | nil => simpa [Meets] using hI
  | cons a actions ih =>
      rw [Meets, hiff s a hJ hI]
      constructor
      · intro h k
        cases k with
        | zero => exact hI
        | succ k => exact (ih (hstep s a hJ) h.1).mp h.2 k
      · intro h
        have hnext : I (step s a) := h 1
        exact ⟨hnext, (ih (hstep s a hJ) hnext).mpr fun k ↦ h (k + 1)⟩

/-! ## Observers -/

/-- The system together with an observer that updates its notes at every step. -/
def watch (step : σ → α → σ) (next : γ → σ → α → γ) (p : σ × γ) (a : α) : σ × γ :=
  (step p.1 a, next p.2 p.1 a)

theorem run_watch_fst (next : γ → σ → α → γ) (s : σ) (g : γ) (actions : List α) :
    (run (watch step next) (s, g) actions).1 = run step s actions := by
  induction actions generalizing s g with
  | nil => rfl
  | cons a actions ih => exact ih _ _

theorem meets_watch (next : γ → σ → α → γ) (s : σ) (g : γ) (actions : List α) :
    Meets (watch step next) (fun p ↦ allowed p.1) (s, g) actions ↔ Meets step allowed s actions := by
  induction actions generalizing s g with
  | nil => exact Iff.rfl
  | cons a actions ih => exact and_congr_right fun _ ↦ ih _ _

theorem Meets.watch {s : σ} {actions : List α} (h : Meets step allowed s actions)
    (next : γ → σ → α → γ) (g : γ) :
    Meets (watch step next) (fun p ↦ allowed p.1) (s, g) actions :=
  (meets_watch next s g actions).mpr h

/-! ## Traces -/

/-- Steps of a system that need not be deterministic, with what is seen of them. -/
inductive Trace (R : σ → α → σ → Prop) : σ → List α → σ → Prop
  | nil (s : σ) : Trace R s [] s
  | cons {s next final : σ} {a : α} {seen : List α} (h : R s a next) (rest : Trace R next seen final) :
      Trace R s (a :: seen) final

/-- When each step of a system is one of another between states that correspond, the other one goes
through every trace of it. -/
theorem Trace.simulated {τ : Type} {R : σ → α → σ → Prop} {S : τ → α → τ → Prop} {C : σ → τ → Prop}
    (hstep : ∀ s t a s', C s t → R s a s' → ∃ t', S t a t' ∧ C s' t') {s s' : σ} {seen : List α}
    (h : Trace R s seen s') {t : τ} (hC : C s t) : ∃ t', Trace S t seen t' ∧ C s' t' := by
  induction h generalizing t with
  | nil s => exact ⟨t, .nil t, hC⟩
  | cons h rest ih =>
      obtain ⟨next, hnext, hC⟩ := hstep _ _ _ _ hC h
      obtain ⟨t', htrace, hC'⟩ := ih hC
      exact ⟨t', .cons hnext htrace, hC'⟩

end Reasoning
