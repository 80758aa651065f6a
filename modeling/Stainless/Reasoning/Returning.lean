import Mathlib.Init

/-!
# Programs that return

Rules for programs with state that end with a result: sequences, branches on the state, and loops
that every pass brings closer to their end.  A loop gets a number of passes and fails when it needs
more; the rules say that it never does.
-/

namespace Reasoning

variable {ε σ α β : Type}

/-! ## 1. Results -/

/-- From `s` the program ends with a result and a state that satisfy `Q`. -/
def Returns (s : σ) (m : EStateM ε σ α) (Q : α → σ → Prop) : Prop :=
  match m s with
  | .ok a t => Q a t
  | .error _ _ => False

instance Returns.decidable (s : σ) (m : EStateM ε σ α) (Q : α → σ → Prop) [∀ a t, Decidable (Q a t)] :
    Decidable (Returns s m Q) :=
  match h : m s with
  | .ok a t => decidable_of_iff (Q a t) (by unfold Returns; rw [h])
  | .error e t => .isFalse (by unfold Returns; rw [h]; exact id)

variable {s : σ} {m : EStateM ε σ α} {Q : α → σ → Prop}

theorem returns_iff : Returns s m Q ↔ ∃ a t, m s = .ok a t ∧ Q a t := by
  unfold Returns
  cases m s with
  | ok a t =>
      constructor
      · intro h
        exact ⟨a, t, rfl, h⟩
      · rintro ⟨a, t, heq, h⟩
        cases heq
        exact h
  | error e t =>
      constructor
      · exact False.elim
      · rintro ⟨a, t, heq, -⟩
        cases heq

namespace Returns

theorem mono {R : α → σ → Prop} (h : Returns s m R) (himp : ∀ a t, R a t → Q a t) : Returns s m Q := by
  unfold Returns at *
  cases hr : m s with
  | ok a t =>
      rw [hr] at h
      exact himp a t h
  | error e t =>
      rw [hr] at h
      exact h

theorem pure {a : α} (h : Q a s) : Returns s (Pure.pure a : EStateM ε σ α) Q := h

theorem modify {f : σ → σ} {Q : Unit → σ → Prop} (h : Q () (f s)) :
    Returns s (modify f : EStateM ε σ Unit) Q := h

/-- A program that reads its state first. -/
theorem read {k : σ → EStateM ε σ α} (h : Returns s (k s) Q) : Returns s (MonadState.get >>= k) Q := h

/-- One part after another. -/
theorem and_then {k : α → EStateM ε σ β} {R : α → σ → Prop} {Q : β → σ → Prop} (h : Returns s m R)
    (hk : ∀ a t, R a t → Returns t (k a) Q) : Returns s (m >>= k) Q := by
  have hbind : (m >>= k) s = EStateM.bind m k s := rfl
  unfold Returns at *
  rw [hbind, EStateM.bind]
  cases hr : m s with
  | ok a t =>
      rw [hr] at h
      exact hk a t h
  | error e t =>
      rw [hr] at h
      exact h.elim

end Returns

/-! ## 2. Branches -/

/-- `if test { yes } else { no }` -/
def whether (test : σ → Bool) (yes no : EStateM ε σ α) : EStateM ε σ α :=
  fun s ↦ if test s then yes s else no s

/-- `if test { program }` -/
def provided (test : σ → Bool) (program : EStateM ε σ Unit) : EStateM ε σ Unit :=
  whether test program (pure ())

theorem Returns.whether {test : σ → Bool} {yes no : EStateM ε σ α} (hyes : test s = true → Returns s yes Q)
    (hno : test s = false → Returns s no Q) : Returns s (whether test yes no) Q := by
  unfold Returns
  cases htest : test s with
  | true =>
      have heq : Reasoning.whether test yes no s = yes s := if_pos htest
      rw [heq]
      exact hyes htest
  | false =>
      have heq : Reasoning.whether test yes no s = no s := if_neg (by rw [htest]; exact Bool.false_ne_true)
      rw [heq]
      exact hno htest

theorem Returns.provided {test : σ → Bool} {program : EStateM ε σ Unit} {Q : Unit → σ → Prop}
    (hyes : test s = true → Returns s program Q) (hno : test s = false → Q () s) :
    Returns s (provided test program) Q :=
  .whether hyes fun h ↦ .pure (hno h)

/-! ## 3. Loops -/

/-- `while !stop { pass }`, with at most so many passes. -/
def repeatUntil (exhausted : ε) (stop : σ → Bool) (pass : EStateM ε σ Unit) : Nat → EStateM ε σ Unit
  | 0 => throw exhausted
  | passes + 1 => whether stop (pure ()) (do pass; repeatUntil exhausted stop pass passes)

/-- `loop { element; if !more { break } next }`, with at most so many elements. -/
def chained (exhausted : ε) (more : σ → Bool) (element next : EStateM ε σ Unit) : Nat → EStateM ε σ Unit
  | 0 => throw exhausted
  | passes + 1 => do element; provided more (do next; chained exhausted more element next passes)

/-- `while !stop { element; if !more { break } next }`, with at most so many elements. -/
def separated (exhausted : ε) (stop more : σ → Bool) (element next : EStateM ε σ Unit) :
    Nat → EStateM ε σ Unit
  | 0 => throw exhausted
  | passes + 1 =>
      whether stop (pure ()) do
        element
        provided more (do next; separated exhausted stop more element next passes)

section

variable {exhausted : ε} {stop more : σ → Bool} {pass element next : EStateM ε σ Unit}
variable {I : Nat → σ → Prop}

/-- What is left to do is bounded by a number, and every pass lowers the bound. -/
theorem Returns.repeatUntil {bound : Nat}
    (hpass : ∀ n s, n ≤ bound → I n s → stop s = false → 0 < n ∧ Returns s pass fun _ t ↦ I (n - 1) t)
    (hmono : ∀ n s, I n s → I (n + 1) s) (h : I bound s) {passes : Nat} (hpasses : bound < passes) :
    Returns s (repeatUntil exhausted stop pass passes) fun _ t ↦ I bound t ∧ stop t = true := by
  induction passes generalizing bound s with
  | zero => omega
  | succ passes ih =>
      apply Returns.whether
      · intro hstop
        exact .pure ⟨h, hstop⟩
      · intro hstop
        have ⟨hpos, hret⟩ := hpass bound s (Nat.le_refl _) h hstop
        refine hret.and_then fun _ t ht ↦ ?_
        have hrest := ih (fun n s hn ↦ hpass n s (by omega)) ht (by omega)
        refine hrest.mono fun _ u hu ↦ ⟨?_, hu.2⟩
        have hle := hmono (bound - 1) u hu.1
        rwa [Nat.sub_add_cancel hpos] at hle

/-- An element may leave the bound; what stands between two elements lowers it. -/
theorem Returns.chained {bound : Nat}
    (helement : ∀ n s, n ≤ bound → I n s → Returns s element fun _ t ↦ I n t)
    (hnext : ∀ n s, I n s → more s = true → 0 < n ∧ Returns s next fun _ t ↦ I (n - 1) t)
    (hmono : ∀ n s, I n s → I (n + 1) s) (h : I bound s) {passes : Nat} (hpasses : bound < passes) :
    Returns s (chained exhausted more element next passes) fun _ t ↦ I bound t := by
  induction passes generalizing bound s with
  | zero => omega
  | succ passes ih =>
      refine (helement bound s (Nat.le_refl _) h).and_then fun _ t ht ↦ ?_
      apply Returns.provided
      · intro hmore
        have ⟨hpos, hret⟩ := hnext bound t ht hmore
        refine hret.and_then fun _ u hu ↦ ?_
        have hrest := ih (fun n s hn ↦ helement n s (by omega)) hu (by omega)
        refine hrest.mono fun _ v hv ↦ ?_
        have hle := hmono (bound - 1) v hv
        rwa [Nat.sub_add_cancel hpos] at hle
      · intro _
        exact ht

theorem Returns.separated {bound : Nat}
    (helement : ∀ n s, n ≤ bound → I n s → stop s = false → Returns s element fun _ t ↦ I n t)
    (hnext : ∀ n s, I n s → more s = true → 0 < n ∧ Returns s next fun _ t ↦ I (n - 1) t)
    (hmono : ∀ n s, I n s → I (n + 1) s) (h : I bound s) {passes : Nat} (hpasses : bound < passes) :
    Returns s (separated exhausted stop more element next passes) fun _ t ↦ I bound t := by
  induction passes generalizing bound s with
  | zero => omega
  | succ passes ih =>
      apply Returns.whether
      · intro _
        exact .pure h
      · intro hstop
        refine (helement bound s (Nat.le_refl _) h hstop).and_then fun _ t ht ↦ ?_
        apply Returns.provided
        · intro hmore
          have ⟨hpos, hret⟩ := hnext bound t ht hmore
          refine hret.and_then fun _ u hu ↦ ?_
          have hrest := ih (fun n s hn ↦ helement n s (by omega)) hu (by omega)
          refine hrest.mono fun _ v hv ↦ ?_
          have hle := hmono (bound - 1) v hv
          rwa [Nat.sub_add_cancel hpos] at hle
        · intro _
          exact ht

end

end Reasoning
