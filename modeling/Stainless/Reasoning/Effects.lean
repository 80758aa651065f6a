/-!
# Programs with state and exceptions

Rules for programs that keep the changes they made before they threw: what holds of the result and of
the state a program ends in.
-/

namespace Reasoning

variable {ε σ α β : Type}

/-- The first part returned. -/
theorem bind_returned {m : EStateM ε σ β} {k : β → EStateM ε σ α} {s t : σ} {b : β}
    (h : m s = .ok b t) : (m >>= k) s = k b t := by
  show EStateM.bind m k s = k b t
  rw [EStateM.bind, h]

/-- From state `s` the program ends with a result and a state that satisfy `Q`. -/
def After (s : σ) (m : EStateM ε σ α) (Q : Except ε α → σ → Prop) : Prop :=
  match m s with
  | .ok a s' => Q (.ok a) s'
  | .error e s' => Q (.error e) s'

instance After.decidable (s : σ) (m : EStateM ε σ α) (Q : Except ε α → σ → Prop)
    [∀ r s', Decidable (Q r s')] : Decidable (After s m Q) :=
  match h : m s with
  | .ok a s' => decidable_of_iff (Q (.ok a) s') (by unfold After; rw [h])
  | .error e s' => decidable_of_iff (Q (.error e) s') (by unfold After; rw [h])

/-- If the program returns, its result and the state it ends in satisfy `P`. -/
def OnReturn (s : σ) (m : EStateM ε σ α) (P : α → σ → Prop) : Prop :=
  match m s with
  | .ok a s' => P a s'
  | .error _ _ => True

instance OnReturn.decidable (s : σ) (m : EStateM ε σ α) (P : α → σ → Prop)
    [∀ a s', Decidable (P a s')] : Decidable (OnReturn s m P) :=
  match h : m s with
  | .ok a s' => decidable_of_iff (P a s') (by unfold OnReturn; rw [h])
  | .error e s' => .isTrue (by unfold OnReturn; rw [h]; trivial)

theorem OnReturn.mono {s : σ} {m : EStateM ε σ α} {P P' : α → σ → Prop} (h : OnReturn s m P)
    (himp : ∀ a t, P a t → P' a t) : OnReturn s m P' := by
  unfold OnReturn at *
  cases hr : m s with
  | ok a t =>
      rw [hr] at h
      exact himp a t h
  | error e t => trivial

theorem OnReturn.pure {s : σ} {a : α} {P : α → σ → Prop} (h : P a s) :
    OnReturn s (Pure.pure a : EStateM ε σ α) P := h

theorem OnReturn.throw {s : σ} {e : ε} {P : α → σ → Prop} :
    OnReturn s (MonadExcept.throw e : EStateM ε σ α) P := trivial

theorem OnReturn.bind {s : σ} {m : EStateM ε σ β} {k : β → EStateM ε σ α} {P : α → σ → Prop}
    (h : OnReturn s m fun b t ↦ OnReturn t (k b) P) : OnReturn s (m >>= k) P := by
  have hbind : (m >>= k) s = EStateM.bind m k s := rfl
  unfold OnReturn at *
  rw [hbind, EStateM.bind]
  cases hr : m s with
  | ok b t =>
      rw [hr] at h
      exact h
  | error e t => trivial

/-- A part about whose result nothing needs to be known. -/
theorem OnReturn.skip {s : σ} {m : EStateM ε σ β} {k : β → EStateM ε σ α} {P : α → σ → Prop}
    (hk : ∀ b t, OnReturn t (k b) P) : OnReturn s (m >>= k) P := by
  apply OnReturn.bind
  unfold OnReturn
  cases m s with
  | ok b t => exact hk b t
  | error e t => trivial

/-- A program that reads its state first. -/
theorem OnReturn.read {s : σ} {k : σ → EStateM ε σ α} {P : α → σ → Prop} (h : OnReturn s (k s) P) :
    OnReturn s (MonadState.get >>= k) P := h

theorem OnReturn.ite {s : σ} {c : Prop} [Decidable c] {m n : EStateM ε σ α} {P : α → σ → Prop}
    (hpos : c → OnReturn s m P) (hneg : ¬c → OnReturn s n P) :
    OnReturn s (if c then m else n) P := by
  split
  · exact hpos ‹_›
  · exact hneg ‹_›

/-- A loop that pushes one result for each value. -/
theorem OnReturn.mapM {γ : Type} {s : σ} {f : γ → EStateM ε σ β} {R : β → Prop} {xs : List γ}
    (h : ∀ x t, OnReturn t (f x) fun b _ ↦ R b) :
    OnReturn s (xs.mapM f) fun bs _ ↦ ∀ b ∈ bs, R b := by
  induction xs generalizing s with
  | nil => exact .pure fun _ hb ↦ nomatch hb
  | cons x xs ih =>
      rw [List.mapM_cons]
      apply OnReturn.bind
      apply (h x s).mono
      intro b t hb
      apply OnReturn.bind
      apply ih.mono
      intro bs u hbs
      exact .pure fun c hc ↦ (List.mem_cons.mp hc).elim (· ▸ hb) (hbs c)

/-- The program does not throw. -/
def returns (m : EStateM ε σ α) (s : σ) : Bool :=
  match m s with
  | .ok _ _ => true
  | .error _ _ => false

namespace After

variable {s : σ} {Q : Except ε α → σ → Prop}

theorem intro {m : EStateM ε σ α} (hok : ∀ a t, m s = .ok a t → Q (.ok a) t)
    (herror : ∀ e t, m s = .error e t → Q (.error e) t) : After s m Q := by
  unfold After
  cases hr : m s with
  | ok a t => exact hok a t hr
  | error e t => exact herror e t hr

theorem ok {m : EStateM ε σ α} {a : α} {t : σ} (h : After s m Q) (hr : m s = .ok a t) :
    Q (.ok a) t := by
  unfold After at h
  rwa [hr] at h

theorem error {m : EStateM ε σ α} {e : ε} {t : σ} (h : After s m Q) (hr : m s = .error e t) :
    Q (.error e) t := by
  unfold After at h
  rwa [hr] at h

theorem pure {a : α} (h : Q (.ok a) s) : After s (Pure.pure a) Q := h

theorem throw {e : ε} (h : Q (.error e) s) : After s (MonadExcept.throw e) Q := h

theorem modify {f : σ → σ} {Q : Except ε Unit → σ → Prop} (h : Q (.ok ()) (f s)) :
    After s (modifyThe σ f) Q := h

theorem set {t : σ} {Q : Except ε PUnit → σ → Prop} (h : Q (.ok ⟨⟩) t) :
    After s (MonadStateOf.set t) Q := h

theorem mono {m : EStateM ε σ α} {P : Except ε α → σ → Prop} (h : After s m P)
    (hpq : ∀ r s', P r s' → Q r s') : After s m Q := by
  unfold After at *
  cases hr : m s with
  | ok a s' =>
      rw [hr] at h
      exact hpq _ _ h
  | error e s' =>
      rw [hr] at h
      exact hpq _ _ h

theorem and {m : EStateM ε σ α} {P : Except ε α → σ → Prop} (h : After s m P) (h' : After s m Q) :
    After s m fun r s' ↦ P r s' ∧ Q r s' := by
  unfold After at *
  cases hr : m s with
  | ok a s' =>
      rw [hr] at h h'
      exact ⟨h, h'⟩
  | error e s' =>
      rw [hr] at h h'
      exact ⟨h, h'⟩

theorem onReturn {m : EStateM ε σ α} {P : α → σ → Prop} (h : After s m Q) (hP : OnReturn s m P) :
    After s m fun r s' ↦ Q r s' ∧ ∀ a, r = .ok a → P a s' := by
  unfold After OnReturn at *
  cases hr : m s with
  | ok a s' =>
      rw [hr] at h hP
      refine ⟨h, fun b hb ↦ ?_⟩
      cases hb
      exact hP
  | error e s' =>
      rw [hr] at h
      exact ⟨h, fun _ hb ↦ nomatch hb⟩

theorem returned {m : EStateM ε σ α} {P : α → σ → Prop} (h : After s m Q)
    (hP : ∀ a t, Q (.ok a) t → P a t) : OnReturn s m P := by
  unfold After at h
  unfold OnReturn
  cases hr : m s with
  | ok a t =>
      rw [hr] at h
      exact hP a t h
  | error e t => trivial

/-- The second part runs where the first one returned; an exception of the first part skips it. -/
theorem bind {m : EStateM ε σ β} {k : β → EStateM ε σ α}
    (h : After s m fun r s' ↦ match r with
      | .ok b => After s' (k b) Q
      | .error e => Q (.error e) s') : After s (m >>= k) Q := by
  have hbind : (m >>= k) s = EStateM.bind m k s := rfl
  unfold After
  rw [hbind, EStateM.bind]
  unfold After at h
  cases hr : m s with
  | ok b s' =>
      rw [hr] at h
      exact h
  | error e s' =>
      rw [hr] at h
      exact h

/-- Some result and state satisfy what holds after the program. -/
theorem someResult {m : EStateM ε σ α} (h : After s m Q) : ∃ r t, Q r t := by
  unfold After at h
  cases hr : m s with
  | ok a t =>
      rw [hr] at h
      exact ⟨_, t, h⟩
  | error e t =>
      rw [hr] at h
      exact ⟨_, t, h⟩

/-- A program that reads its state first. -/
theorem read {k : σ → EStateM ε σ α} (h : After s (k s) Q) : After s (MonadState.get >>= k) Q := h

/-- A part about which nothing needs to be known. -/
theorem skip {m : EStateM ε σ β} {k : β → EStateM ε σ α} (hk : ∀ b t, After t (k b) Q)
    (herror : ∀ e t, Q (.error e) t) : After s (m >>= k) Q := by
  apply bind
  apply intro
  · exact fun b t _ ↦ hk b t
  · exact fun e t _ ↦ herror e t

/-- The first two of three parts taken together. -/
theorem assoc {γ : Type} {m : EStateM ε σ β} {n : β → EStateM ε σ γ} {k : γ → EStateM ε σ α}
    (h : After s (m >>= n >>= k) Q) : After s (m >>= fun b ↦ n b >>= k) Q := by
  rwa [bind_assoc] at h

theorem ite {c : Prop} [Decidable c] {m n : EStateM ε σ α} (hpos : c → After s m Q)
    (hneg : ¬c → After s n Q) : After s (if c then m else n) Q := by
  by_cases hc : c
  · rw [if_pos hc]
    exact hpos hc
  · rw [if_neg hc]
    exact hneg hc

/-- The handler runs in the state the exception left. -/
theorem tryCatch {m : EStateM ε σ α} {handle : ε → EStateM ε σ α}
    (h : After s m fun r s' ↦ match r with
      | .ok a => Q (.ok a) s'
      | .error e => After s' (handle e) Q) : After s (MonadExcept.tryCatch m handle) Q := by
  unfold After at h
  cases hr : m s with
  | ok a s' =>
      have htry : (MonadExcept.tryCatch m handle) s = .ok a s' := by
        show EStateM.tryCatch m handle s = _
        delta EStateM.tryCatch
        dsimp only
        rw [hr]
      rw [hr] at h
      unfold After
      rw [htry]
      exact h
  | error e s' =>
      have htry : (MonadExcept.tryCatch m handle) s = handle e s' := by
        show EStateM.tryCatch m handle s = _
        delta EStateM.tryCatch
        dsimp only
        rw [hr]
        rfl
      rw [hr] at h
      unfold After
      rw [htry]
      exact h

/-- A loop that threads a value keeps `I` as long as no pass throws. -/
theorem foldlM {γ : Type} {f : β → γ → EStateM ε σ β} {I : List γ → β → σ → Prop}
    {E : ε → σ → Prop} {xs : List γ} {b : β} (hstart : I xs b s)
    (hpass : ∀ x rest b s, I (x :: rest) b s → After s (f b x) fun r s' ↦ match r with
      | .ok b' => I rest b' s'
      | .error e => E e s') :
    After s (xs.foldlM f b) fun r s' ↦ match r with
      | .ok b' => I [] b' s'
      | .error e => E e s' := by
  induction xs generalizing b s with
  | nil => exact hstart
  | cons x rest ih =>
      rw [List.foldlM_cons]
      apply bind
      apply (hpass x rest b s hstart).mono
      intro r s' h
      cases r with
      | ok b' => exact ih h
      | error e => exact h

end After

/-- From state `s` the program returns, and its result and the state it ends in satisfy `P`. -/
def Succeeds (s : σ) (m : EStateM ε σ α) (P : α → σ → Prop) : Prop :=
  After s m fun r t ↦ match r with
    | .ok a => P a t
    | .error _ => False

namespace Succeeds

variable {s : σ} {P : α → σ → Prop}

theorem intro {m : EStateM ε σ α} {a : α} {t : σ} (hr : m s = .ok a t) (h : P a t) :
    Succeeds s m P := by
  unfold Succeeds After
  rw [hr]
  exact h

theorem ok {m : EStateM ε σ α} (h : Succeeds s m P) : ∃ a t, m s = .ok a t ∧ P a t := by
  unfold Succeeds After at h
  cases hr : m s with
  | ok a t =>
      rw [hr] at h
      exact ⟨a, t, rfl, h⟩
  | error e t =>
      rw [hr] at h
      exact h.elim

theorem pure {a : α} (h : P a s) : Succeeds s (Pure.pure a : EStateM ε σ α) P := h

theorem modify {f : σ → σ} {P : Unit → σ → Prop} (h : P () (f s)) :
    Succeeds s (modifyThe σ f : EStateM ε σ Unit) P := h

theorem mono {m : EStateM ε σ α} {P' : α → σ → Prop} (h : Succeeds s m P)
    (himp : ∀ a t, P a t → P' a t) : Succeeds s m P' := by
  apply After.mono h
  intro r t hr
  cases r with
  | ok a => exact himp a t hr
  | error e => exact hr

theorem bind {m : EStateM ε σ β} {k : β → EStateM ε σ α}
    (h : Succeeds s m fun b t ↦ Succeeds t (k b) P) : Succeeds s (m >>= k) P := by
  apply After.bind
  apply After.mono h
  intro r t hr
  cases r with
  | ok b => exact hr
  | error e => exact hr.elim

/-- A program that reads its state first. -/
theorem read {k : σ → EStateM ε σ α} (h : Succeeds s (k s) P) : Succeeds s (MonadState.get >>= k) P := h

/-- What is known of the program if it returns. -/
theorem onReturn {m : EStateM ε σ α} {P' : α → σ → Prop} (h : Succeeds s m P)
    (h' : OnReturn s m P') : Succeeds s m P' := by
  have ⟨a, t, hr, _⟩ := h.ok
  unfold OnReturn at h'
  rw [hr] at h'
  exact .intro hr h'

theorem foldlM {γ : Type} {f : β → γ → EStateM ε σ β} {I : List γ → β → σ → Prop} {xs : List γ}
    {b : β} (hstart : I xs b s)
    (hpass : ∀ x rest b t, I (x :: rest) b t → Succeeds t (f b x) fun b' t' ↦ I rest b' t') :
    Succeeds s (xs.foldlM f b) fun b' t ↦ I [] b' t :=
  After.foldlM (E := fun _ _ ↦ False) hstart hpass

/-- A loop over the numbers below `n`. -/
theorem range {f : β → Nat → EStateM ε σ β} {J : Nat → β → σ → Prop} {n : Nat} {b : β}
    (hstart : J 0 b s) (hpass : ∀ i b t, i < n → J i b t → Succeeds t (f b i) (J (i + 1))) :
    Succeeds s ((List.range n).foldlM f b) (J n) := by
  induction n with
  | zero => exact .pure hstart
  | succ n ih =>
      rw [List.range_succ, List.foldlM_append]
      apply bind
      apply (ih fun i b t hi ↦ hpass i b t (by omega)).mono
      intro b t hb
      rw [List.foldlM_cons]
      apply bind
      exact (hpass n b t (by omega) hb).mono fun c u hc ↦ .pure hc

/-- A loop that pushes one result for each value and leaves the state as it is. -/
theorem mapM {γ : Type} {f : γ → EStateM ε σ β} {xs : List γ}
    (h : ∀ x ∈ xs, Succeeds s (f x) fun _ t ↦ t = s) :
    Succeeds s (xs.mapM f) fun _ t ↦ t = s := by
  induction xs with
  | nil => exact .pure rfl
  | cons x xs ih =>
      rw [List.mapM_cons]
      apply bind
      apply (h x List.mem_cons_self).mono
      rintro a t rfl
      apply bind
      apply (ih fun y hy ↦ h y (List.mem_cons_of_mem _ hy)).mono
      rintro as u rfl
      exact .pure rfl

end Succeeds

/-- What a program can do to the state it starts in, whatever it returns. -/
def Steps (R : σ → σ → Prop) (m : EStateM ε σ α) : Prop := ∀ s, After s m fun _ s' ↦ R s s'

namespace Steps

variable {R : σ → σ → Prop}

theorem pure (hrefl : ∀ s, R s s) (a : α) : Steps R (Pure.pure a : EStateM ε σ α) :=
  fun s ↦ After.pure (hrefl s)

theorem throw (hrefl : ∀ s, R s s) (e : ε) : Steps R (MonadExcept.throw e : EStateM ε σ α) :=
  fun s ↦ After.throw (hrefl s)

theorem modify {f : σ → σ} (h : ∀ s, R s (f s)) : Steps R (modifyThe σ f : EStateM ε σ Unit) :=
  fun s ↦ After.modify (h s)

theorem bind (htrans : ∀ s t u, R s t → R t u → R s u) {m : EStateM ε σ β}
    {k : β → EStateM ε σ α} (hm : Steps R m) (hk : ∀ b, Steps R (k b)) : Steps R (m >>= k) := by
  intro s
  apply After.bind
  apply (hm s).mono
  intro r t hst
  cases r with
  | ok b => exact (hk b t).mono fun _ u htu ↦ htrans s t u hst htu
  | error e => exact hst

/-- The program runs after a step that is already taken. -/
theorem after (htrans : ∀ s t u, R s t → R t u → R s u) {s t : σ} {m : EStateM ε σ α}
    (hm : Steps R m) (hst : R s t) : After t m fun _ u ↦ R s u :=
  (hm t).mono fun _ u htu ↦ htrans s t u hst htu

/-- A program that gives a fixed value when it returns. -/
theorem value {m : EStateM ε σ β} {a : α} (hm : Steps R m) (s : σ) :
    After s (m >>= fun _ ↦ Pure.pure a) fun r t ↦ R s t ∧ ∀ b, r = .ok b → b = a := by
  apply After.bind
  apply (hm s).mono
  intro r t hst
  cases r with
  | ok b =>
      apply After.pure
      exact ⟨hst, fun c hc ↦ (Except.ok.inj hc).symm⟩
  | error e => exact ⟨hst, fun c hc ↦ nomatch hc⟩

/-- A program that reads its state first. -/
theorem get {k : σ → EStateM ε σ α} (h : ∀ s, After s (k s) fun _ s' ↦ R s s') :
    Steps R (MonadState.get >>= k) :=
  fun s ↦ After.read (h s)

/-- A program that reads its state and does not rely on it later. -/
theorem read {k : σ → EStateM ε σ α} (h : ∀ s, Steps R (k s)) : Steps R (MonadState.get >>= k) :=
  get fun s ↦ h s s

theorem ite {c : Prop} [Decidable c] {m n : EStateM ε σ α} (hm : Steps R m) (hn : Steps R n) :
    Steps R (if c then m else n) :=
  fun s ↦ After.ite (fun _ ↦ hm s) fun _ ↦ hn s

theorem foldlM (hrefl : ∀ s, R s s) (htrans : ∀ s t u, R s t → R t u → R s u) {γ : Type}
    {f : β → γ → EStateM ε σ β} (hf : ∀ b x, Steps R (f b x)) (xs : List γ) (b : β) :
    Steps R (xs.foldlM f b) := by
  induction xs generalizing b with
  | nil => exact pure hrefl b
  | cons x xs ih =>
      rw [List.foldlM_cons]
      exact bind htrans (hf b x) ih

theorem forM (hrefl : ∀ s, R s s) (htrans : ∀ s t u, R s t → R t u → R s u) {γ : Type}
    {f : γ → EStateM ε σ PUnit} (hf : ∀ x, Steps R (f x)) (xs : List γ) : Steps R (xs.forM f) := by
  induction xs with
  | nil => exact pure hrefl _
  | cons x xs ih => exact bind htrans (hf x) fun _ ↦ ih

theorem mapM (hrefl : ∀ s, R s s) (htrans : ∀ s t u, R s t → R t u → R s u) {γ : Type}
    {f : γ → EStateM ε σ β} (hf : ∀ x, Steps R (f x)) (xs : List γ) : Steps R (xs.mapM f) := by
  induction xs with
  | nil => exact pure hrefl _
  | cons x xs ih =>
      rw [List.mapM_cons]
      exact bind htrans (hf x) fun _ ↦ bind htrans ih fun _ ↦ pure hrefl _

theorem tryCatch (htrans : ∀ s t u, R s t → R t u → R s u) {m : EStateM ε σ α}
    {handle : ε → EStateM ε σ α} (hm : Steps R m) (hh : ∀ e, Steps R (handle e)) :
    Steps R (MonadExcept.tryCatch m handle) := by
  intro s
  apply After.tryCatch
  apply (hm s).mono
  intro r t hst
  cases r with
  | ok a => exact hst
  | error e => exact (hh e t).mono fun _ u htu ↦ htrans s t u hst htu

end Steps

/-! ## Observers -/

variable {γ : Type}

/-- The result of a program with what an observer sees of the state it ends in. -/
def observed (view : σ → γ) : EStateM.Result ε σ α → Except ε α × γ
  | .ok a s => (.ok a, view s)
  | .error e s => (.error e, view s)

/-- From state `s` the observer cannot tell two programs apart. -/
def Alike (view : σ → γ) (s : σ) (m m' : EStateM ε σ α) : Prop :=
  observed view (m s) = observed view (m' s)

namespace Alike

variable {view : σ → γ} {s : σ}

theorem refl (m : EStateM ε σ α) : Alike view s m m := rfl

theorem modify {f g : σ → σ} (h : view (f s) = view (g s)) :
    Alike view s (modifyThe σ f : EStateM ε σ Unit) (modifyThe σ g) := by
  show ((Except.ok () : Except ε Unit), view (f s)) = (.ok (), view (g s))
  rw [h]

/-- The programs begin with the same part. -/
theorem bind {m : EStateM ε σ β} {k k' : β → EStateM ε σ α} (h : ∀ b t, Alike view t (k b) (k' b)) :
    Alike view s (m >>= k) (m >>= k') := by
  have hbind (k : β → EStateM ε σ α) : (m >>= k) s = EStateM.bind m k s := rfl
  unfold Alike
  rw [hbind, hbind, EStateM.bind, EStateM.bind]
  cases m s with
  | ok b t => exact h b t
  | error e t => rfl

/-- The programs end with the same value. -/
theorem value {m m' : EStateM ε σ β} (h : Alike view s m m') (a : α) :
    Alike view s (m >>= fun _ ↦ Pure.pure a) (m' >>= fun _ ↦ Pure.pure a) := by
  have hbind (m : EStateM ε σ β) :
      (m >>= fun _ ↦ (Pure.pure a : EStateM ε σ α)) s = EStateM.bind m (fun _ ↦ Pure.pure a) s := rfl
  unfold Alike at *
  rw [hbind, hbind, EStateM.bind, EStateM.bind]
  cases hr : m s with
  | ok b t =>
      cases hr' : m' s with
      | ok b' t' =>
          rw [hr, hr'] at h
          have hview : view t = view t' := congrArg Prod.snd h
          exact Prod.ext rfl hview
      | error e' t' =>
          rw [hr, hr'] at h
          cases h
  | error e t =>
      cases hr' : m' s with
      | ok b' t' =>
          rw [hr, hr'] at h
          cases h
      | error e' t' =>
          rw [hr, hr'] at h
          have hview : view t = view t' := congrArg Prod.snd h
          cases congrArg Prod.fst h
          exact Prod.ext rfl hview

theorem read {k k' : σ → EStateM ε σ α} (h : Alike view s (k s) (k' s)) :
    Alike view s (MonadState.get >>= k) (MonadState.get >>= k') := h

theorem ite {c : Prop} [Decidable c] {m m' n n' : EStateM ε σ α} (hpos : Alike view s m m')
    (hneg : Alike view s n n') : Alike view s (if c then m else n) (if c then m' else n') := by
  split
  · exact hpos
  · exact hneg

end Alike

end Reasoning
