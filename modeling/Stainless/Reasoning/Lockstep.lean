import Stainless.Reasoning.Returning

/-!
# Programs in step

Two programs with states of their own run side by side: from related states they come to related states
with the same result.  Only runs that both end count, and of those only the ones in which nothing is
reported, as far as the first program can see.
-/

namespace Reasoning

variable {ε σ τ α β : Type}

theorem bind_eq_ok {m : EStateM ε σ α} {k : α → EStateM ε σ β} {s u : σ} {b : β} :
    (m >>= k) s = .ok b u ↔ ∃ a t, m s = .ok a t ∧ k a t = .ok b u := by
  show EStateM.bind m k s = _ ↔ _
  unfold EStateM.bind
  cases m s with
  | ok a t =>
      constructor
      · intro h
        exact ⟨a, t, rfl, h⟩
      · rintro ⟨a', t', heq, h⟩
        cases heq
        exact h
  | error e t =>
      constructor
      · intro h
        cases h
      · rintro ⟨a', t', heq, h⟩
        cases heq

/-! ## 1. Two programs -/

structure Lockstep (Quiet : σ → Prop) (Pre Post : σ → τ → Prop) (m : EStateM ε σ α) (m' : EStateM ε τ α) : Prop where
  /-- What is reported stays reported. -/
  quiet : ∀ s a t, m s = .ok a t → Quiet t → Quiet s
  keeps : ∀ s s' a a' t t', Pre s s' → m s = .ok a t → m' s' = .ok a' t' → Quiet t → a = a' ∧ Post t t'

namespace Lockstep

variable {Quiet : σ → Prop} {Pre Pre' Mid Post Post' : σ → τ → Prop}
variable {m : EStateM ε σ α} {m' : EStateM ε τ α} {k : α → EStateM ε σ β} {k' : α → EStateM ε τ β}

theorem mono (h : Lockstep Quiet Pre Post m m') (hpre : ∀ s s', Pre' s s' → Pre s s')
    (hpost : ∀ s s', Post s s' → Post' s s') : Lockstep Quiet Pre' Post' m m' where
  quiet := h.quiet
  keeps s s' a a' t t' hs hm hm' ht :=
    have ⟨heq, hpost'⟩ := h.keeps s s' a a' t t' (hpre s s' hs) hm hm' ht
    ⟨heq, hpost t t' hpost'⟩

/-- What the states have no part in. -/
theorem frame (P : Prop) (h : Lockstep Quiet Pre Post m m') :
    Lockstep Quiet (fun s s' ↦ P ∧ Pre s s') (fun s s' ↦ P ∧ Post s s') m m' where
  quiet := h.quiet
  keeps s s' a a' t t' hs hm hm' ht :=
    have ⟨heq, hpost⟩ := h.keeps s s' a a' t t' hs.2 hm hm' ht
    ⟨heq, hs.1, hpost⟩

theorem pure {a : α} (h : ∀ s s', Pre s s' → Post s s') :
    Lockstep Quiet Pre Post (Pure.pure a : EStateM ε σ α) (Pure.pure a) where
  quiet s b t hrun ht := by
    cases hrun
    exact ht
  keeps s s' b b' t t' hs hrun hrun' _ := by
    cases hrun
    cases hrun'
    exact ⟨rfl, h s s' hs⟩

theorem modify {f : σ → σ} {f' : τ → τ} (hquiet : ∀ s, Quiet (f s) → Quiet s)
    (h : ∀ s s', Pre s s' → Quiet (f s) → Post (f s) (f' s')) :
    Lockstep Quiet Pre Post (modify f : EStateM ε σ Unit) (modify f') where
  quiet s _ t hrun ht := by
    cases hrun
    exact hquiet s ht
  keeps s s' _ _ t t' hs hrun hrun' ht := by
    cases hrun
    cases hrun'
    exact ⟨rfl, h s s' hs ht⟩

theorem and_then (h : Lockstep Quiet Pre Mid m m') (hk : ∀ a, Lockstep Quiet Mid Post (k a) (k' a)) :
    Lockstep Quiet Pre Post (m >>= k) (m' >>= k') where
  quiet s b u hrun hu := by
    have ⟨a, t, hm, hrest⟩ := bind_eq_ok.mp hrun
    exact h.quiet s a t hm ((hk a).quiet t b u hrest hu)
  keeps s s' b b' u u' hs hrun hrun' hu := by
    have ⟨a, t, hm, hrest⟩ := bind_eq_ok.mp hrun
    have ⟨a', t', hm', hrest'⟩ := bind_eq_ok.mp hrun'
    have ⟨heq, hmid⟩ := h.keeps s s' a a' t t' hs hm hm' ((hk a).quiet t b u hrest hu)
    subst heq
    exact (hk a).keeps t t' b b' u u' hmid hrest hrest' hu

/-- Programs that read their states first, and see the same of them. -/
theorem read {k : σ → EStateM ε σ α} {k' : τ → EStateM ε τ α} {γ : Type} (see : σ → γ) (see' : τ → γ)
    (hsee : ∀ s s', Pre s s' → see s = see' s') (hquiet : ∀ s a t, k s s = .ok a t → Quiet t → Quiet s)
    (hk : ∀ s s', see s = see' s' → Lockstep Quiet (fun t t' ↦ Pre t t' ∧ t = s ∧ t' = s') Post (k s) (k' s')) :
    Lockstep Quiet Pre Post (MonadState.get >>= k) (MonadState.get >>= k') where
  quiet := hquiet
  keeps s s' a a' t t' hs hrun hrun' := (hk s s' (hsee s s' hs)).keeps s s' a a' t t' ⟨hs, rfl, rfl⟩ hrun hrun'

theorem throw_left {e : ε} : Lockstep Quiet Pre Post (throw e) m' := ⟨nofun, nofun⟩

theorem throw_right {e : ε} (h : Lockstep Quiet Pre Post m m') : Lockstep Quiet Pre Post m (throw e) := ⟨h.quiet, nofun⟩

/-! ## 2. Branches and loops -/

variable {yes no : EStateM ε σ α} {yes' no' : EStateM ε τ α} {test : σ → Bool} {test' : τ → Bool}

theorem whether (htest : ∀ s s', Pre s s' → test s = test' s')
    (hyes : Lockstep Quiet (fun s s' ↦ Pre s s' ∧ test s = true) Post yes yes')
    (hno : Lockstep Quiet (fun s s' ↦ Pre s s' ∧ test s = false) Post no no') :
    Lockstep Quiet Pre Post (whether test yes no) (Reasoning.whether test' yes' no') where
  quiet s a t hrun ht := by
    have heq : Reasoning.whether test yes no s = if test s then yes s else no s := rfl
    rw [heq] at hrun
    split at hrun
    · exact hyes.quiet s a t hrun ht
    · exact hno.quiet s a t hrun ht
  keeps s s' a a' t t' hs hrun hrun' ht := by
    have heq : Reasoning.whether test yes no s = if test s then yes s else no s := rfl
    have heq' : Reasoning.whether test' yes' no' s' = if test' s' then yes' s' else no' s' := rfl
    rw [heq] at hrun
    rw [heq', ← htest s s' hs] at hrun'
    cases htrue : test s with
    | true =>
        rw [htrue] at hrun hrun'
        exact hyes.keeps s s' a a' t t' ⟨hs, htrue⟩ hrun hrun' ht
    | false =>
        rw [htrue] at hrun hrun'
        exact hno.keeps s s' a a' t t' ⟨hs, htrue⟩ hrun hrun' ht

end Lockstep

/-- What holds for all budgets of both programs, where a program without a budget has no result. -/
theorem budgets {P : Nat → Nat → Prop} (hleft : ∀ budget, P 0 budget) (hright : ∀ budget, P budget 1 → P budget 0)
    (hsucc : ∀ budget budget', (∀ other, P budget other) → P (budget + 1) (budget' + 1)) (budget budget' : Nat) :
    P budget budget' := by
  induction budget generalizing budget' with
  | zero => exact hleft budget'
  | succ budget ih =>
      cases budget' with
      | zero => exact hright _ (hsucc budget 0 ih)
      | succ budget' => exact hsucc budget budget' ih

namespace Lockstep

variable {Quiet : σ → Prop} {I : σ → τ → Prop} {exhausted : ε} {stop more : σ → Bool} {stop' more' : τ → Bool}
variable {pass element next : EStateM ε σ Unit} {pass' element' next' : EStateM ε τ Unit}

theorem provided {test : σ → Bool} {test' : τ → Bool} (htest : ∀ s s', I s s' → test s = test' s')
    (h : Lockstep Quiet (fun s s' ↦ I s s' ∧ test s = true) I pass pass') :
    Lockstep Quiet I I (provided test pass) (Reasoning.provided test' pass') :=
  .whether htest h (.pure fun _ _ hs ↦ hs.1)

theorem repeatUntil (hstop : ∀ s s', I s s' → stop s = stop' s')
    (hpass : Lockstep Quiet (fun s s' ↦ I s s' ∧ stop s = false) I pass pass') :
    ∀ passes passes', Lockstep Quiet I I (repeatUntil exhausted stop pass passes)
      (Reasoning.repeatUntil exhausted stop' pass' passes') :=
  budgets (fun _ ↦ throw_left) (fun _ ↦ throw_right) fun _ _ ih ↦
    .whether hstop (.pure fun _ _ hs ↦ hs.1) (hpass.and_then fun _ ↦ ih _)

theorem chained (hmore : ∀ s s', I s s' → more s = more' s') (helement : Lockstep Quiet I I element element')
    (hnext : Lockstep Quiet I I next next') :
    ∀ passes passes', Lockstep Quiet I I (chained exhausted more element next passes)
      (Reasoning.chained exhausted more' element' next' passes') :=
  budgets (fun _ ↦ throw_left) (fun _ ↦ throw_right) fun _ _ ih ↦
    helement.and_then fun _ ↦ .provided hmore ((hnext.and_then fun _ ↦ ih _).mono (fun _ _ hs ↦ hs.1) fun _ _ hs ↦ hs)

theorem separated (hstop : ∀ s s', I s s' → stop s = stop' s') (hmore : ∀ s s', I s s' → more s = more' s')
    (helement : Lockstep Quiet I I element element') (hnext : Lockstep Quiet I I next next') :
    ∀ passes passes', Lockstep Quiet I I (separated exhausted stop more element next passes)
      (Reasoning.separated exhausted stop' more' element' next' passes') :=
  budgets (fun _ ↦ throw_left) (fun _ ↦ throw_right) fun _ _ ih ↦
    .whether hstop (.pure fun _ _ hs ↦ hs.1)
      ((helement.and_then fun _ ↦ .provided hmore
        ((hnext.and_then fun _ ↦ ih _).mono (fun _ _ hs ↦ hs.1) fun _ _ hs ↦ hs)).mono
          (fun _ _ hs ↦ hs.1) fun _ _ hs ↦ hs)

end Lockstep

end Reasoning
