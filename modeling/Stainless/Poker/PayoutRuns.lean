import Stainless.Poker.Payouts
import Stainless.Poker.Frames
import Stainless.Crypto.WideMultiplication

/-!
# The payouts that a hand records

`allocate_payouts` statement by statement: the loops collect the layers, share them and record what
was paid.
-/

open Reasoning Stainless.Runtime Stainless.Crypto

namespace Stainless.Poker

/-! ## 1. Calls that may be refused -/

/-- The call ended neither in a failed subtraction nor in the check of the accounts. -/
def Refused (e : Exit) : Prop :=
  e ≠ .stopped ∧ e ≠ .exception (.config "payout accounting mismatch")

/-- The call returns a result that satisfies `P`, or it is refused. -/
def Gives {α : Type} (s : HandState) (m : HandM α) (P : α → HandState → Prop) : Prop :=
  After s m fun r t ↦ match r with
    | .ok a => P a t
    | .error e => Refused e

namespace Gives

variable {α β : Type} {s : HandState} {P : α → HandState → Prop}

theorem pure {a : α} (h : P a s) : Gives s (Pure.pure a) P := After.pure h

theorem mono {m : HandM α} {P' : α → HandState → Prop} (h : Gives s m P)
    (himp : ∀ a t, P a t → P' a t) : Gives s m P' := by
  apply After.mono h
  intro r t hr
  cases r with
  | ok a => exact himp a t hr
  | error e => exact hr

theorem bind {m : HandM β} {k : β → HandM α} (h : Gives s m fun b t ↦ Gives t (k b) P) :
    Gives s (m >>= k) P := by
  apply After.bind
  apply After.mono h
  intro r t hr
  cases r with
  | ok b => exact hr
  | error e => exact hr

theorem read {k : HandState → HandM α} (h : Gives s (k s) P) : Gives s (MonadState.get >>= k) P :=
  After.read h

theorem update {f : Hand → Hand} {P : Unit → HandState → Prop} (h : P () { s with hand := f s.hand }) :
    Gives s (updateHand f) P := After.modify h

theorem requireConfig {c : Prop} [Decidable c] {message : String} {P : Unit → HandState → Prop}
    (hmessage : message ≠ "payout accounting mismatch") (h : c → P () s) :
    Gives s (Poker.requireConfig c message) P := by
  apply After.ite
  · exact fun hc ↦ After.pure (h hc)
  · intro _
    apply After.throw
    exact ⟨Exit.noConfusion, fun he ↦ hmessage (by injection he with he; injection he)⟩

theorem safeAmountAdd {left right : Nat} {P : Nat → HandState → Prop} (h : P (left + right) s) :
    Gives s (Poker.safeAmountAdd left right) P :=
  .bind (.requireConfig (by decide) fun _ ↦ .pure h)

theorem safeAmountMul {left right : Nat} {P : Nat → HandState → Prop} (h : P (left * right) s) :
    Gives s (Poker.safeAmountMul left right) P :=
  .bind (.requireConfig (by decide) fun _ ↦ .pure h)

theorem subAmount {left right : Nat} {P : Nat → HandState → Prop} (hle : right ≤ left)
    (h : P (left - right) s) : Gives s (Poker.subAmount left right) P := by
  rw [Poker.subAmount, if_pos hle]
  exact .pure h

theorem safeMulDiv {left right divisor : Nat} {P : Nat → HandState → Prop}
    (h : P (left * right / divisor) s) : Gives s (Poker.safeMulDiv left right divisor) P := by
  unfold Poker.safeMulDiv
  cases hresult : mulDivFloor left right divisor with
  | ok quotient =>
      rw [mulDivFloor_ok hresult]
      exact .pure h
  | error message =>
      apply After.throw
      refine ⟨Exit.noConfusion, fun he ↦ ?_⟩
      injection he with he
      injection he with he
      rcases mulDivFloor_error hresult with rfl | rfl
      · exact absurd he (by decide)
      · exact absurd he (by decide)

theorem foldlM {γ : Type} {f : α → γ → HandM α} {I : List γ → α → HandState → Prop} {l : List γ}
    {a : α} (hstart : I l a s)
    (hpass : ∀ x rest a t, I (x :: rest) a t → Gives t (f a x) fun a' t' ↦ I rest a' t') :
    Gives s (l.foldlM f a) fun a' t ↦ I [] a' t := by
  apply After.mono (After.foldlM (E := fun e _ ↦ Refused e) hstart ?_)
  · intro r t hr
    cases r with
    | ok a => exact hr
    | error e => exact hr
  · intro x rest a t hI
    apply After.mono (hpass x rest a t hI)
    intro r t' hr
    cases r with
    | ok a => exact hr
    | error e => exact hr

/-- A loop over the numbers below `n`. -/
theorem range {f : α → Nat → HandM α} {J : Nat → α → HandState → Prop} {n : Nat} {a : α}
    (hstart : J 0 a s) (hpass : ∀ i a t, i < n → J i a t → Gives t (f a i) (J (i + 1))) :
    Gives s ((List.range n).foldlM f a) (J n) := by
  induction n with
  | zero => exact .pure hstart
  | succ n ih =>
      rw [List.range_succ, List.foldlM_append]
      have hfirst := ih fun i a t hi ↦ hpass i a t (by omega)
      apply bind
      apply hfirst.mono
      intro b t hb
      rw [List.foldlM_cons]
      apply bind
      exact (hpass n b t (by omega) hb).mono fun c u hc ↦ .pure hc

/-- A loop that pushes one result for each value and leaves the state as it is. -/
theorem mapM {γ : Type} {f : γ → HandM α} {R : γ → α → Prop} {xs : List γ}
    (h : ∀ x ∈ xs, Gives s (f x) fun a t ↦ t = s ∧ R x a) :
    Gives s (xs.mapM f) fun as t ↦ t = s ∧ List.Forall₂ R xs as := by
  induction xs with
  | nil => exact .pure ⟨rfl, .nil⟩
  | cons x xs ih =>
      rw [List.mapM_cons]
      apply bind
      apply (h x List.mem_cons_self).mono
      rintro a t ⟨rfl, ha⟩
      apply bind
      apply (ih fun y hy ↦ h y (List.mem_cons_of_mem _ hy)).mono
      rintro as u ⟨rfl, has⟩
      exact .pure ⟨rfl, .cons ha has⟩

end Gives

/-! ## 2. The vector of payouts -/

/-- The vector holds the payout `f i` of each of the `n` players. -/
structure Paid (n : Nat) (payouts : List Nat) (f : Nat → Nat) : Prop where
  length : payouts.length = n
  payout : ∀ i < n, payouts.getD i 0 = f i

theorem Paid.congr {n : Nat} {payouts : List Nat} {f g : Nat → Nat} (h : Paid n payouts f)
    (heq : ∀ i < n, f i = g i) : Paid n payouts g where
  length := h.length
  payout i hi := (h.payout i hi).trans (heq i hi)

section Vector

variable {s : HandState} {n : Nat} {payouts : List Nat} {f : Nat → Nat}

theorem Paid.add {index amount : Nat} (h : Paid n payouts f) (hindex : index < n) :
    Gives s (addPayout payouts index amount) fun result t ↦
      t = s ∧ Paid n result fun i ↦ f i + if i = index then amount else 0 := by
  refine .bind (.safeAmountAdd (.pure ⟨rfl, ?_⟩))
  constructor
  case length => rw [List.length_set, h.length]
  case payout =>
    intro i hi
    have hlength : index < payouts.length := by
      rw [h.length]
      exact hindex
    by_cases heq : i = index
    · rw [heq, if_pos rfl, ← h.payout index hindex]
      simp [List.getD_eq_getElem?_getD, hlength]
    · rw [if_neg heq, Nat.add_zero, ← h.payout i hi]
      simp [List.getD_eq_getElem?_getD, List.getElem?_set_ne (Ne.symm heq)]

/-- The same amount to each of some different players. -/
theorem Paid.addAll {delta : Nat} {indices : List Nat} (h : Paid n payouts f)
    (hnodup : indices.Nodup) (hlt : ∀ i ∈ indices, i < n) :
    Gives s (indices.foldlM (fun payouts index ↦ addPayout payouts index delta) payouts)
      fun result t ↦ t = s ∧ Paid n result fun i ↦ f i + if i ∈ indices then delta else 0 := by
  induction indices generalizing payouts f with
  | nil => exact .pure ⟨rfl, h.congr fun i _ ↦ by simp⟩
  | cons index indices ih =>
      have ⟨hnot, hnodup'⟩ := List.nodup_cons.mp hnodup
      rw [List.foldlM_cons]
      apply Gives.bind
      apply (h.add (hlt index List.mem_cons_self)).mono
      rintro result t ⟨rfl, hresult⟩
      apply (ih hresult hnodup' fun i hi ↦ hlt i (List.mem_cons_of_mem _ hi)).mono
      rintro result' u ⟨rfl, hresult'⟩
      refine ⟨rfl, hresult'.congr fun i _ ↦ ?_⟩
      by_cases heq : i = index
      · rw [heq, if_pos rfl, if_neg hnot, if_pos List.mem_cons_self, Nat.add_zero]
      · simp [heq]

/-- The winners in order, each with its share. -/
theorem Paid.share {net : Nat} {winners : List Nat} (h : Paid n payouts f) (hnodup : winners.Nodup)
    (hlt : ∀ i ∈ winners, i < n) :
    Gives s
      ((List.range winners.length).foldlM
        (fun payouts offset ↦ do
          let share ← splitAmount net winners.length offset
          addPayout payouts (winners.getD offset 0) share) payouts)
      fun result t ↦ t = s ∧ Paid n result fun i ↦ f i + shareOf net winners i := by
  -- the first `k` winners have their shares
  have hloop := Gives.range (s := s) (n := winners.length) (a := payouts)
    (f := fun payouts offset ↦ do
      let share ← splitAmount net winners.length offset
      addPayout payouts (winners.getD offset 0) share)
    (J := fun k result t ↦ t = s ∧
      Paid n result fun i ↦ f i + if i ∈ winners.take k then shareOf net winners i else 0)
    ⟨rfl, h.congr fun i _ ↦ by simp⟩ ?_
  · apply hloop.mono
    rintro result t ⟨rfl, hresult⟩
    refine ⟨rfl, hresult.congr fun i _ ↦ ?_⟩
    rw [List.take_length]
    by_cases hi : i ∈ winners
    · rw [if_pos hi]
    · rw [if_neg hi, shareOf_of_not_mem hi]
  · rintro k result t hk ⟨rfl, hresult⟩
    have hwinner : winners.getD k 0 = winners[k] := by simp [hk]
    have hmem : winners[k] ∈ winners := List.getElem_mem hk
    have hshare : shareOf net winners winners[k] =
        net / winners.length + if k < net % winners.length then 1 else 0 := by
      rw [shareOf, if_pos hmem, hnodup.idxOf_getElem k hk]
    refine .bind (.bind (.requireConfig (by decide) fun _ ↦ .pure ?_))
    rw [← hshare, hwinner]
    apply (hresult.add (hlt _ hmem)).mono
    rintro result' u ⟨rfl, hresult'⟩
    refine ⟨rfl, hresult'.congr fun i _ ↦ ?_⟩
    have htake : i ∈ winners.take (k + 1) ↔ i ∈ winners.take k ∨ i = winners[k] := by
      rw [List.take_succ_eq_append_getElem hk, List.mem_append, List.mem_singleton]
    have hfresh : winners[k] ∉ winners.take k := by
      intro hin
      obtain ⟨j, hj, heq⟩ := List.mem_take_iff_getElem.mp hin
      have hjk := (hnodup.getElem_inj_iff).mp heq
      omega
    by_cases heq : i = winners[k]
    · rw [heq, if_neg hfresh, if_pos rfl, if_pos (by rw [← heq, htake]; exact .inr heq)]
      omega
    · simp [htake, heq]

end Vector

/-! ## 3. The winners of a layer -/

theorem compareRank_pos (left right : Rank) :
    compareRank left right > 0 ↔ rankKey right < rankKey left := by
  rw [← not_le, ← compareRank_nonpos]
  omega

theorem compareRank_zero (left right : Rank) :
    compareRank left right = 0 ↔ rankKey left = rankKey right := by
  rw [compareRank_eq]
  by_cases hgt : rankKey right < rankKey left
  · simp [hgt, ne_of_gt hgt]
  · by_cases hlt : rankKey left < rankKey right
    · simp [hgt, hlt, ne_of_lt hlt]
    · simp [le_antisymm (not_lt.mp hgt) (not_lt.mp hlt)]

/-- `acc` holds the greatest rank of the players in `done`, and those who have it. -/
def Leading (hand : Hand) (done : List Nat) (acc : Option Rank × List Nat) : Prop :=
  match acc.1 with
  | none => done = []
  | some winning =>
      acc.2 = done.filter (fun i ↦ rankKey (hand.rank i) = rankKey winning) ∧
        (∃ i ∈ done, rankKey (hand.rank i) = rankKey winning) ∧
          ∀ i ∈ done, rankKey (hand.rank i) ≤ rankKey winning

theorem Leading.best {hand : Hand} {level : Nat} {acc : Option Rank × List Nat}
    (h : Leading hand (hand.eligible level) acc) (hne : hand.eligible level ≠ []) :
    acc.2 = hand.best level := by
  unfold Leading at h
  cases hwinning : acc.1 with
  | none =>
      rw [hwinning] at h
      exact absurd h hne
  | some winning =>
      rw [hwinning] at h
      obtain ⟨hfilter, ⟨i, hi, htop⟩, hmax⟩ := h
      rw [hfilter, Hand.best]
      apply List.filter_congr
      intro j hj
      rw [Bool.eq_iff_iff]
      simp only [decide_eq_true_eq, List.all_eq_true, compareRank_nonpos]
      constructor
      · intro heq k hk
        rw [heq]
        exact hmax k hk
      · intro hall
        apply le_antisymm (hmax j hj)
        rw [← htop]
        exact hall i hi

/-- The next player leads alone, leads with the others or does not lead. -/
theorem Leading.next {hand : Hand} {done : List Nat} {acc : Option Rank × List Nat} {s : HandState}
    (h : Leading hand done acc) (index : Nat) :
    Gives s (layerWinner hand acc index) fun acc' t ↦
      t = s ∧ Leading hand (done ++ [index]) acc' := by
  refine .bind (.requireConfig (by decide) fun _ ↦ ?_)
  show Gives s (match acc.1 with
    | none => Pure.pure (some (hand.rank index), [index])
    | some winning =>
        if compareRank (hand.rank index) winning > 0 then
          Pure.pure (some (hand.rank index), [index])
        else if compareRank (hand.rank index) winning = 0 then
          Pure.pure (some winning, acc.2 ++ [index])
        else Pure.pure acc) _
  unfold Leading at h
  cases hwinning : acc.1 with
  -- the first one leads alone
  | none =>
      rw [hwinning] at h
      refine .pure ⟨rfl, ?_⟩
      simp [Leading, show done = [] from h]
  | some winning =>
      rw [hwinning] at h
      obtain ⟨hfilter, ⟨i, hi, htop⟩, hmax⟩ := h
      -- a better rank drops all that led, an equal one joins them
      by_cases hgt : compareRank (hand.rank index) winning > 0
      · show Gives s (if _ then _ else _) _
        rw [if_pos hgt]
        rw [compareRank_pos] at hgt
        refine .pure ⟨rfl, ?_, ⟨index, by simp, rfl⟩, ?_⟩
        · rw [List.filter_append]
          have hnone : done.filter (fun i ↦ rankKey (hand.rank i) = rankKey (hand.rank index)) = [] := by
            rw [List.filter_eq_nil_iff]
            intro j hj
            have hlt := lt_of_le_of_lt (hmax j hj) hgt
            simp [ne_of_lt hlt]
          rw [hnone]
          simp
        · intro j hj
          rcases List.mem_append.mp hj with hj | hj
          · exact le_of_lt (lt_of_le_of_lt (hmax j hj) hgt)
          · rw [List.mem_singleton.mp hj]
      · by_cases heq : compareRank (hand.rank index) winning = 0
        · show Gives s (if _ then _ else _) _
          rw [if_neg hgt, if_pos heq]
          rw [compareRank_zero] at heq
          refine .pure ⟨rfl, ?_, ⟨i, List.mem_append_left _ hi, htop⟩, ?_⟩
          · simp [List.filter_append, hfilter, heq]
          · intro j hj
            rcases List.mem_append.mp hj with hj | hj
            · exact hmax j hj
            · rw [List.mem_singleton.mp hj]
              exact le_of_eq heq
        · show Gives s (if _ then _ else _) _
          rw [if_neg hgt, if_neg heq]
          rw [compareRank_pos] at hgt
          rw [compareRank_zero] at heq
          refine .pure ⟨rfl, ?_⟩
          unfold Leading
          rw [hwinning]
          refine ⟨?_, ⟨i, List.mem_append_left _ hi, htop⟩, ?_⟩
          · simp [List.filter_append, hfilter, heq]
          · intro j hj
            rcases List.mem_append.mp hj with hj | hj
            · exact hmax j hj
            · rw [List.mem_singleton.mp hj]
              exact not_lt.mp hgt

theorem layerWinners_gives (hand : Hand) (level : Nat) (s : HandState) :
    Gives s (layerWinners hand (hand.eligible level)) fun winners t ↦
      t = s ∧ winners = hand.best level := by
  refine .bind (.requireConfig (by decide) fun hlength ↦ ?_)
  have hne : hand.eligible level ≠ [] := List.ne_nil_of_length_pos hlength
  by_cases hone : (hand.eligible level).length = 1
  · -- one player needs no rank
    show Gives s (if _ then _ else _) _
    rw [if_pos hone]
    refine .pure ⟨rfl, ?_⟩
    obtain ⟨i, hi⟩ := List.length_eq_one_iff.mp hone
    simp [Hand.best, hi, compareRank_nonpos]
  · show Gives s (if _ then _ else _) _
    rw [if_neg hone]
    apply Gives.bind
    have hloop := Gives.foldlM (s := s) (f := layerWinner hand) (l := hand.eligible level)
      (a := (none, []))
      (I := fun rest acc t ↦ t = s ∧ ∃ done, hand.eligible level = done ++ rest ∧
        Leading hand done acc)
      ⟨rfl, [], rfl, rfl⟩ ?_
    · apply hloop.mono
      rintro acc t ⟨rfl, done, hdone, hleading⟩
      rw [List.append_nil] at hdone
      rw [← hdone] at hleading
      exact .pure ⟨rfl, hleading.best hne⟩
    · rintro index rest acc t ⟨rfl, done, hdone, hleading⟩
      apply (hleading.next index).mono
      rintro acc' u ⟨rfl, hleading'⟩
      exact ⟨rfl, done ++ [index], by simp [hdone], hleading'⟩

/-! ## 4. The layers -/

/-- The search for the next greater bet finds the least one. -/
theorem nextLevel_spec (hand : Hand) (previous : Nat) :
    match nextLevel hand previous with
    | none => ∀ player ∈ hand.players, player.bet ≤ previous
    | some level => previous < level ∧ (∃ player ∈ hand.players, player.bet = level) ∧
        ∀ player ∈ hand.players, previous < player.bet → level ≤ player.bet := by
  unfold nextLevel
  induction hand.players using List.reverseRecOn with
  | nil => exact fun _ h ↦ absurd h List.not_mem_nil
  | append_singleton players last ih =>
      rw [List.foldl_append, List.foldl_cons, List.foldl_nil]
      generalize players.foldl _ none = found at ih ⊢
      cases found with
      | none =>
          by_cases hlast : last.bet > previous
          · rw [if_pos (by simpa using hlast)]
            refine ⟨hlast, ⟨last, by simp, rfl⟩, fun player hplayer hbet ↦ ?_⟩
            rcases List.mem_append.mp hplayer with h | h
            · have := ih player h
              omega
            · rw [List.mem_singleton.mp h]
          · rw [if_neg (by simpa using hlast)]
            intro player hplayer
            rcases List.mem_append.mp hplayer with h | h
            · exact ih player h
            · rw [List.mem_singleton.mp h]
              omega
      | some level =>
          obtain ⟨hlevel, ⟨player', hplayer', hbet'⟩, hleast⟩ := ih
          by_cases hlast : last.bet > previous ∧ last.bet < level
          · rw [if_pos (by simpa using hlast)]
            refine ⟨hlast.1, ⟨last, by simp, rfl⟩, fun player hplayer hbet ↦ ?_⟩
            rcases List.mem_append.mp hplayer with h | h
            · have := hleast player h hbet
              omega
            · rw [List.mem_singleton.mp h]
          · rw [if_neg (by simpa using hlast)]
            refine ⟨hlevel, ⟨player', List.mem_append_left _ hplayer', hbet'⟩,
              fun player hplayer hbet ↦ ?_⟩
            rcases List.mem_append.mp hplayer with h | h
            · exact hleast player h hbet
            · rw [List.mem_singleton.mp h] at hbet ⊢
              omega

/-- `rest` are the bets above `previous`, ascending. -/
structure Above (hand : Hand) (previous : Nat) (rest : List Nat) : Prop where
  sorted : (previous :: rest).Pairwise (· < ·)
  mem : ∀ x, x ∈ rest ↔ previous < x ∧ ∃ player ∈ hand.players, player.bet = x

theorem Above.next {hand : Hand} {previous : Nat} {rest : List Nat} (h : Above hand previous rest) :
    nextLevel hand previous = rest.head? := by
  have hspec := nextLevel_spec hand previous
  cases hnext : nextLevel hand previous with
  | none =>
      rw [hnext] at hspec
      cases rest with
      | nil => rfl
      | cons level rest =>
          obtain ⟨hlevel, player, hplayer, hbet⟩ := (h.mem level).mp List.mem_cons_self
          have := hspec player hplayer
          omega
  | some found =>
      rw [hnext] at hspec
      obtain ⟨hfound, hplayer, hleast⟩ := hspec
      have hmem : found ∈ rest := (h.mem found).mpr ⟨hfound, hplayer⟩
      cases rest with
      | nil => exact absurd hmem List.not_mem_nil
      | cons level rest =>
          obtain ⟨hlevel, player, hplayer, hbet⟩ := (h.mem level).mp List.mem_cons_self
          have hle := hleast player hplayer (by omega)
          have hsorted := (List.pairwise_cons.mp (List.pairwise_cons.mp h.sorted).2).1
          rcases List.mem_cons.mp hmem with rfl | hin
          · rfl
          · have := hsorted found hin
            omega

theorem Above.tail {hand : Hand} {previous level : Nat} {rest : List Nat}
    (h : Above hand previous (level :: rest)) : Above hand level rest := by
  have ⟨hfirst, hrest⟩ := List.pairwise_cons.mp h.sorted
  have hlevel := hfirst level List.mem_cons_self
  refine ⟨hrest, fun x ↦ ?_⟩
  have hmem := h.mem x
  have habove := (List.pairwise_cons.mp hrest).1
  constructor
  · intro hx
    exact ⟨habove x hx, (hmem.mp (List.mem_cons_of_mem _ hx)).2⟩
  · rintro ⟨hlt, hplayer⟩
    rcases List.mem_cons.mp (hmem.mpr ⟨by omega, hplayer⟩) with rfl | hx
    · omega
    · exact hx

theorem Hand.levels_above (hand : Hand) : Above hand 0 hand.levels where
  sorted := hand.levels_sorted
  mem _ := hand.mem_levels

theorem Hand.levels_length_le (hand : Hand) : hand.levels.length ≤ hand.players.length := by
  rw [Hand.levels, List.length_insertionSort]
  have hdedup := (List.dedup_sublist ((hand.players.map Player.bet).filter (0 < ·))).length_le
  have hfilter := List.length_filter_le (0 < ·) (hand.players.map Player.bet)
  rw [List.length_map] at hfilter
  exact hdedup.trans hfilter

/-- What a player gets back of the layers between some levels. -/
def Hand.refundOf (hand : Hand) (layers : List (Nat × Nat)) (i : Nat) : Nat :=
  ((layers.filter fun l ↦ !hand.matched l.2).map fun l ↦
    if l.2 ≤ (hand.player i).bet then l.2 - l.1 else 0).sum

def Hand.layer (hand : Hand) (l : Nat × Nat) : Layer := ⟨hand.pot l, hand.best l.2⟩

theorem collectLayers_gives (hand : Hand) {rest : List Nat} {count previous : Nat} {acc : Layers}
    {f : Nat → Nat} {s : HandState} (habove : Above hand previous rest)
    (hcount : rest.length ≤ count) (hpaid : Paid hand.players.length acc.payouts f) :
    Gives s (collectLayers hand count previous acc) fun result t ↦ t = s ∧
      Paid hand.players.length result.payouts
        (fun i ↦ f i + hand.refundOf (between previous rest) i) ∧
      result.layers = acc.layers ++
        ((between previous rest).filter fun l ↦ hand.matched l.2).map hand.layer ∧
      result.matchedTotal = acc.matchedTotal +
        (((between previous rest).filter fun l ↦ hand.matched l.2).map hand.pot).sum := by
  induction rest generalizing count previous acc f with
  | nil =>
      have hdone : collectLayers hand count previous acc = Pure.pure acc := by
        cases count with
        | zero => rfl
        | succ count =>
            rw [collectLayers, habove.next]
            rfl
      rw [hdone]
      exact .pure ⟨rfl, hpaid, by simp [between], rfl⟩
  | cons level rest ih =>
      obtain ⟨count, rfl⟩ : ∃ c, count = c + 1 := ⟨count - 1, by rw [List.length_cons] at hcount; omega⟩
      have hlt : previous < level := (List.pairwise_cons.mp habove.sorted).1 level List.mem_cons_self
      have hlayers : between previous (level :: rest) = (previous, level) :: between level rest := rfl
      rw [collectLayers, habove.next]
      show Gives s (subAmount level previous >>= fun delta ↦
        if (hand.contributors level).length = 1 ∨ (hand.eligible level).length = 0 then _ else _) _
      refine .bind (.subAmount (by omega) ?_)
      have hcount' : rest.length ≤ count := by
        rw [List.length_cons] at hcount
        omega
      by_cases hback : (hand.contributors level).length = 1 ∨ (hand.eligible level).length = 0
      · -- the layer goes back to those who paid into it
        rw [if_pos hback]
        have hmatched : hand.matched level = false := by simp only [Hand.matched, hback, decide_true, Bool.not_true]
        apply Gives.bind
        apply (hpaid.addAll (hand.contributors_nodup level)
          fun i hi ↦ (hand.mem_contributors.mp hi).1).mono
        rintro payouts t ⟨rfl, hpayouts⟩
        apply (ih habove.tail hcount' hpayouts).mono
        rintro result u ⟨rfl, hresult, hlayers', htotal⟩
        refine ⟨rfl, hresult.congr fun i hi ↦ ?_, ?_, ?_⟩
        · simp [hlayers, Hand.refundOf, hmatched, hand.mem_contributors, hi, Nat.add_assoc]
        · simp [hlayers', hlayers, hmatched]
        · simp [htotal, hlayers, hmatched]
      · rw [if_neg hback]
        have hmatched : hand.matched level = true := by simp only [Hand.matched, hback, decide_false, Bool.not_false]
        have hkept : (between previous (level :: rest)).filter (fun l ↦ hand.matched l.2) =
            (previous, level) :: (between level rest).filter fun l ↦ hand.matched l.2 := by
          rw [hlayers, List.filter_cons, if_pos hmatched]
        refine .bind (.safeAmountMul (.bind ?_))
        apply (layerWinners_gives hand level s).mono
        rintro winners t ⟨rfl, hwinners⟩
        refine .bind (.safeAmountAdd ?_)
        refine Gives.mono (ih (f := f) habove.tail hcount' hpaid) ?_
        rintro result u ⟨rfl, hresult, hlayers', htotal⟩
        refine ⟨rfl, hresult.congr fun i hi ↦ ?_, ?_, ?_⟩
        · simp [hlayers, Hand.refundOf, hmatched]
        · rw [hlayers', hkept, hwinners]
          exact (List.append_cons acc.layers _ _).symm
        · rw [htotal, hkept, List.map_cons, List.sum_cons, ← Nat.add_assoc]
          rfl

/-! ## 5. The rake and the shares -/

/-- What a player wins of some layers after those that hold `seen`. -/
def Hand.winningsOf (hand : Hand) (rake total seen : Nat) (layers : List (Nat × Nat)) (i : Nat) :
    Nat :=
  (((netAmounts rake total seen (layers.map hand.pot)).zip (layers.map fun l ↦ hand.best l.2)).map
    fun prize ↦ shareOf prize.1 prize.2 i).sum

theorem shareLayers_gives (hand : Hand) {rake total : Nat} (hle : rake ≤ total) (hpos : 0 < total)
    {layers : List (Nat × Nat)} {acc : Shares} {f : Nat → Nat} {s : HandState}
    (hpaid : Paid hand.players.length acc.payouts f)
    (hseen : acc.rakeSeen = rake * acc.matchedSeen / total) :
    Gives s ((layers.map hand.layer).foldlM (shareLayer rake total) acc) fun result t ↦ t = s ∧
      Paid hand.players.length result.payouts
        fun i ↦ f i + hand.winningsOf rake total acc.matchedSeen layers i := by
  induction layers generalizing acc f with
  | nil => exact .pure ⟨rfl, hpaid⟩
  | cons l layers ih =>
      have ⟨hmono, hstep⟩ := rake_step hle hpos acc.matchedSeen (hand.pot l)
      rw [List.map_cons, List.foldlM_cons]
      refine .bind (.bind (.safeAmountAdd (.bind (.safeMulDiv (.bind ?_)))))
      show Gives s (subAmount (rake * (acc.matchedSeen + hand.pot l) / total) acc.rakeSeen) _
      rw [hseen]
      refine .subAmount hmono (.bind (.subAmount hstep (.bind ?_)))
      apply (hpaid.share (hand.best_nodup l.2) fun i hi ↦
        (hand.mem_contributors.mp (hand.mem_eligible.mp (hand.best_subset hi)).1).1).mono
      rintro payouts t ⟨rfl, hpayouts⟩
      refine .pure ((ih hpayouts rfl).mono ?_)
      rintro result u ⟨rfl, hresult⟩
      refine ⟨rfl, hresult.congr fun i _ ↦ ?_⟩
      simp [Hand.winningsOf, Hand.layer, netAmounts, Nat.add_assoc]

theorem Hand.winnings_le_matchedPot (hand : Hand) (i : Nat) : hand.winnings i ≤ hand.matchedPot := by
  have hshares : hand.winnings i ≤ (hand.matchedLayers.map fun l ↦
      if l.2 ≤ (hand.player i).bet then hand.pot l else 0).sum := hand.shares_le _ _ _ _ i
  apply hshares.trans
  apply List.sum_le_sum
  intro l _
  split
  · exact Nat.le_refl _
  · exact Nat.zero_le _

/-- The rake is recorded, and the vector holds what is left of the stacks and the winnings. -/
theorem applyRake_gives {layers : Layers} {f : Nat → Nat} {s : HandState}
    (hpaid : Paid s.hand.players.length layers.payouts f)
    (hlayers : layers.layers = s.hand.matchedLayers.map s.hand.layer)
    (htotal : layers.matchedTotal = s.hand.matchedPot) :
    Gives s (applyRake layers (s.hand.minRake * s.hand.players.length)) fun payouts t ↦
      t = { s with hand := { s.hand with dealerRake := s.hand.rake } } ∧
        (0 < s.hand.matchedPot → s.hand.rake ≤ s.hand.matchedPot) ∧
        (s.hand.matchedPot = 0 → ∀ i < s.hand.players.length, s.hand.minRake ≤ f i) ∧
          Paid s.hand.players.length payouts fun i ↦
            f i + s.hand.winnings i - if s.hand.matchedPot = 0 then s.hand.minRake else 0 := by
  apply Gives.read
  by_cases hpos : layers.matchedTotal > 0
  · -- the rake is taken from the layers
    rw [if_pos hpos]
    refine .bind (.safeMulDiv ?_)
    have hrake : (if s.hand.minRake * s.hand.players.length > layers.matchedTotal * s.hand.rakeBps / 10000
        then s.hand.minRake * s.hand.players.length
        else layers.matchedTotal * s.hand.rakeBps / 10000) = s.hand.rake := by
      rw [Hand.rake, htotal]
      split
      · omega
      · omega
    rw [hrake]
    refine .bind (.requireConfig (by decide) fun hle ↦ .bind (.update (.bind ?_)))
    rw [htotal] at hpos hle
    rw [hlayers, htotal]
    apply (shareLayers_gives s.hand hle hpos hpaid (by simp)).mono
    rintro shares t ⟨rfl, hshares⟩
    refine .pure ⟨rfl, fun _ ↦ hle, fun hzero ↦ by omega, hshares.congr fun i _ ↦ ?_⟩
    rw [if_neg (by omega), Nat.sub_zero]
    rfl
  · -- all layers went back: every player pays the least rake
    rw [if_neg hpos]
    have hzero : s.hand.matchedPot = 0 := by omega
    refine .bind (.requireConfig (by decide) fun _ ↦ .bind (.update ?_))
    have hrake : s.hand.rake = s.hand.minRake * s.hand.players.length := by
      rw [Hand.rake, hzero, Nat.zero_mul, Nat.zero_div]
      omega
    apply (Gives.mapM (R := fun payout result ↦
      s.hand.minRake ≤ payout ∧ result = payout - s.hand.minRake) ?_).mono
    · rintro payouts t ⟨rfl, hall⟩
      have hlength := hall.length_eq
      have hplace : ∀ i (hi : i < s.hand.players.length),
          s.hand.minRake ≤ f i ∧ payouts.getD i 0 = f i - s.hand.minRake := by
        intro i hi
        have hi' : i < layers.payouts.length := by
          rw [hpaid.length]
          exact hi
        have hget := hall.get hi' (by omega)
        rw [← hpaid.payout i hi]
        simpa [hi', show i < payouts.length by omega] using hget
      refine ⟨by rw [hrake], fun h ↦ by omega, fun _ i hi ↦ (hplace i hi).1, ?_, fun i hi ↦ ?_⟩
      · rw [← hlength, hpaid.length]
      · have hwinnings := s.hand.winnings_le_matchedPot i
        rw [(hplace i hi).2, if_pos hzero, show s.hand.winnings i = 0 by omega, Nat.add_zero]
    · intro payout _
      exact .bind (.requireConfig (by decide) fun hle ↦ .subAmount hle ⟨rfl, hle, rfl⟩)

/-! ## 6. Every payout is recorded -/

namespace Hand

variable (hand : Hand)

/-- What a player is paid: the stack it did not bet, what it gets back and what it wins. -/
def payoutOf (i : Nat) : Nat :=
  (hand.player i).stack - (hand.player i).bet + hand.refund i + hand.winnings i -
    if hand.matchedPot = 0 then hand.minRake else 0

/-- The players of whom the first `k` have their payouts. -/
def paidTo (payouts : List Nat) (k : Nat) : List Player :=
  hand.players.mapIdx fun i player ↦
    if i < k then { player with payout := some (payouts.getD i 0) } else player

/-- The hand with its rake and payouts. -/
def allocated : Hand :=
  { hand with
    dealerRake := hand.rake
    players := hand.players.mapIdx fun i player ↦
      { player with payout := some (hand.payoutOf i) } }

theorem paidTo_zero (payouts : List Nat) : hand.paidTo payouts 0 = hand.players := by
  apply List.ext_getElem
  · rw [paidTo, List.length_mapIdx]
  · intro i _ _
    simp only [paidTo, List.getElem_mapIdx]
    exact if_neg (Nat.not_lt_zero i)

theorem paidTo_succ (payouts : List Nat) (k : Nat) :
    (hand.paidTo payouts k).modify k (fun player ↦
      { player with payout := some (payouts.getD k 0) }) = hand.paidTo payouts (k + 1) := by
  apply List.ext_getElem
  · simp [paidTo]
  · intro i hi hi'
    rw [List.getElem_modify]
    simp only [paidTo, List.getElem_mapIdx]
    by_cases heq : k = i
    · subst heq
      simp
    · rw [if_neg heq]
      by_cases hlt : i < k
      · rw [if_pos hlt, if_pos (by omega)]
      · rw [if_neg hlt, if_neg (by omega)]

theorem paidTo_stack (payouts : List Nat) (k i : Nat) :
    ((hand.paidTo payouts k).getD i {}).stack = (hand.player i).stack := by
  simp only [paidTo, player, List.getD_eq_getElem?_getD, List.getElem?_mapIdx]
  cases hand.players[i]? with
  | none => rfl
  | some player =>
      show (if i < k then _ else _ : Player).stack = player.stack
      split
      · rfl
      · rfl

end Hand

theorem recordPayouts_gives {payouts : List Nat} {total : Nat} {s t : HandState}
    (hplayers : t.hand.players = s.hand.players) :
    Gives t ((List.range s.hand.players.length).foldlM (recordPayout payouts) (0, total))
      fun totals u ↦
        u = { t with hand := { t.hand with players := s.hand.paidTo payouts s.hand.players.length } } ∧
          totals = (∑ i ∈ Finset.range s.hand.players.length, (s.hand.player i).stack,
            total + ∑ i ∈ Finset.range s.hand.players.length, payouts.getD i 0) := by
  apply Gives.range (J := fun k totals u ↦
    u = { t with hand := { t.hand with players := s.hand.paidTo payouts k } } ∧
      totals = (∑ i ∈ Finset.range k, (s.hand.player i).stack,
        total + ∑ i ∈ Finset.range k, payouts.getD i 0))
  · rw [s.hand.paidTo_zero, ← hplayers]
    exact ⟨rfl, rfl⟩
  · rintro k totals u _ ⟨rfl, rfl⟩
    refine .bind (.update (.read (.bind (.safeAmountAdd (.bind (.safeAmountAdd (.pure ?_)))))))
    rw [s.hand.paidTo_succ, s.hand.paidTo_stack, Finset.sum_range_succ,
      Finset.sum_range_succ, Nat.add_assoc]
    exact ⟨rfl, rfl⟩

/-! ## 7. The accounts -/

/-- The stacks and the bets of a hand whose payouts can be computed. -/
structure Payable (hand : Hand) : Prop where
  bet_le : ∀ i < hand.players.length, (hand.player i).bet ≤ (hand.player i).stack
  rake_le : 0 < hand.matchedPot → hand.rake ≤ hand.matchedPot
  minRake_le : hand.matchedPot = 0 → ∀ i < hand.players.length,
    hand.minRake ≤ (hand.player i).stack - (hand.player i).bet + hand.refund i

/-- No unit is lost. -/
theorem Payable.balanced {hand : Hand} (h : Payable hand) :
    ∑ i ∈ Finset.range hand.players.length, hand.payoutOf i + hand.rake =
      ∑ i ∈ Finset.range hand.players.length, (hand.player i).stack := by
  have hstacks : ∑ i ∈ Finset.range hand.players.length, (hand.player i).stack =
      ∑ i ∈ Finset.range hand.players.length, ((hand.player i).stack - (hand.player i).bet) +
        ∑ i ∈ Finset.range hand.players.length, (hand.player i).bet := by
    rw [← Finset.sum_add_distrib]
    apply Finset.sum_congr rfl
    intro i hi
    have := h.bet_le i (Finset.mem_range.mp hi)
    omega
  rw [hstacks, ← hand.refund_matched_sum]
  by_cases hzero : hand.matchedPot = 0
  · have hrake : hand.rake = ∑ i ∈ Finset.range hand.players.length, hand.minRake := by
      rw [Finset.sum_const_nat fun _ _ ↦ rfl, Finset.card_range, Hand.rake, hzero, Nat.zero_mul,
        Nat.zero_div, Nat.mul_comm]
      omega
    rw [hrake, hzero, Nat.add_zero, ← Finset.sum_add_distrib, ← Finset.sum_add_distrib]
    apply Finset.sum_congr rfl
    intro i hi
    have hpayable := h.minRake_le hzero i (Finset.mem_range.mp hi)
    have hwinnings := hand.winnings_le_matchedPot i
    rw [Hand.payoutOf, if_pos hzero]
    omega
  · have hpayout : ∀ i, hand.payoutOf i =
        (hand.player i).stack - (hand.player i).bet + hand.refund i + hand.winnings i := by
      intro i
      rw [Hand.payoutOf, if_neg hzero, Nat.sub_zero]
    have hwinnings := hand.winnings_sum (by omega) (h.rake_le (by omega))
    simp only [hpayout, Finset.sum_add_distrib]
    omega

theorem payouts_gives (s : HandState) :
    Gives s
      (s.hand.players.mapM fun player ↦ do
        requireConfig (player.bet ≤ player.stack) "bet exceeds player stack"
        subAmount player.stack player.bet)
      fun payouts t ↦ t = s ∧
        (∀ i < s.hand.players.length, (s.hand.player i).bet ≤ (s.hand.player i).stack) ∧
          Paid s.hand.players.length payouts fun i ↦
            (s.hand.player i).stack - (s.hand.player i).bet := by
  apply (Gives.mapM (R := fun player payout ↦
    player.bet ≤ player.stack ∧ payout = player.stack - player.bet) ?_).mono
  · rintro payouts t ⟨rfl, hall⟩
    have hlength := hall.length_eq
    have hplace : ∀ i (hi : i < t.hand.players.length),
        (t.hand.player i).bet ≤ (t.hand.player i).stack ∧
          payouts.getD i 0 = (t.hand.player i).stack - (t.hand.player i).bet := by
      intro i hi
      have hget := hall.get hi (by omega)
      rw [t.hand.player_of_lt hi]
      simpa [show i < payouts.length by omega] using hget
    exact ⟨rfl, fun i hi ↦ (hplace i hi).1, hlength.symm, fun i hi ↦ (hplace i hi).2⟩
  · intro player _
    exact .bind (.requireConfig (by decide) fun hle ↦ .subAmount hle ⟨rfl, hle, rfl⟩)

/-- The call returns with all payouts recorded, or it is refused. -/
theorem allocatePayouts_gives (s : HandState) :
    Gives s allocatePayouts fun _ t ↦
      t = { s with hand := s.hand.allocated } ∧ Payable s.hand := by
  apply Gives.read
  apply Gives.bind
  apply (payouts_gives s).mono
  rintro payouts t ⟨rfl, hbets, hpayouts⟩
  apply Gives.bind
  apply (collectLayers_gives t.hand t.hand.levels_above t.hand.levels_length_le hpayouts).mono
  rintro layers u ⟨rfl, hpaid, hlayers, htotal⟩
  refine .bind (.safeAmountMul (.bind ?_))
  apply (applyRake_gives hpaid (by rw [hlayers]; rfl) (by rw [htotal, Nat.zero_add]; rfl)).mono
  rintro payouts' v ⟨rfl, hrake, hminRake, hpaid'⟩
  have hpayable : Payable u.hand := ⟨hbets, hrake, hminRake⟩
  refine .read (.bind ?_)
  apply (recordPayouts_gives (s := u)
    (t := { u with hand := { u.hand with dealerRake := u.hand.rake } }) rfl).mono
  rintro totals w ⟨rfl, rfl⟩
  have hsum : ∑ i ∈ Finset.range u.hand.players.length, payouts'.getD i 0 =
      ∑ i ∈ Finset.range u.hand.players.length, u.hand.payoutOf i :=
    Finset.sum_congr rfl fun i hi ↦ hpaid'.payout i (Finset.mem_range.mp hi)
  have hequal := hpayable.balanced
  -- so the last check cannot fail
  show Gives _ (if _ then _ else _) _
  rw [if_pos (by show _ = u.hand.rake + _; rw [hsum]; omega)]
  refine .pure ⟨?_, hpayable⟩
  have hplayers : u.hand.paidTo payouts' u.hand.players.length = u.hand.allocated.players := by
    apply List.ext_getElem
    · simp [Hand.paidTo, Hand.allocated]
    · intro i hi hi'
      have hlt : i < u.hand.players.length := by simpa [Hand.paidTo] using hi
      simp only [Hand.paidTo, Hand.allocated, List.getElem_mapIdx]
      rw [if_pos hlt, hpaid'.payout i hlt]
      rfl
  rw [hplayers]
  rfl

/-! ## 8. Payout allocation -/

/-- What the hand says after the allocation, in terms of the hand before. -/
structure Allocated (before after : Hand) : Prop where
  result : after = before.allocated
  dealerRake : after.dealerRake =
    max (before.matchedPot * before.rakeBps / 10000) (before.minRake * before.players.length)
  balanced : ∑ i ∈ Finset.range before.players.length, (after.player i).payout.getD 0 +
    after.dealerRake = ∑ i ∈ Finset.range before.players.length, (before.player i).stack
  payout : ∀ i < before.players.length, (after.player i).payout =
    some ((before.player i).stack - (before.player i).bet + before.refund i + before.winnings i -
      if before.matchedPot = 0 then before.minRake else 0)
  -- the matched layers, each with what the rake leaves of it
  winners : before.prizes.map Prod.snd = before.matchedLayers.map fun l ↦ before.best l.2
  shared : ∀ prize ∈ before.prizes,
    (∀ i, i ∉ prize.2 → shareOf prize.1 prize.2 i = 0) ∧
    (∀ i ∈ prize.2, ∀ j ∈ prize.2, shareOf prize.1 prize.2 i ≤ shareOf prize.1 prize.2 j + 1) ∧
    ∑ i ∈ Finset.range before.players.length, shareOf prize.1 prize.2 i = prize.1
  bounded : ∀ i < before.players.length, (after.player i).payout.getD 0 ≤
    (before.player i).stack - (before.player i).bet +
      ∑ j ∈ Finset.range before.players.length, min (before.player i).bet (before.player j).bet
  folded : ∀ i < before.players.length, (before.player i).folded = true →
    (after.player i).payout.getD 0 ≤ (before.player i).stack

theorem Hand.allocated_payout (hand : Hand) {i : Nat} (hi : i < hand.players.length) :
    (hand.allocated.player i).payout = some (hand.payoutOf i) := by
  have hi' : i < hand.allocated.players.length := by simpa [Hand.allocated] using hi
  rw [Hand.player_of_lt _ hi']
  simp [Hand.allocated]

theorem Payable.allocated {hand : Hand} (h : Payable hand) : Allocated hand hand.allocated where
  result := rfl
  dealerRake := rfl
  balanced := by
    rw [← h.balanced]
    congr 1
    apply Finset.sum_congr rfl
    intro i hi
    rw [hand.allocated_payout (Finset.mem_range.mp hi), Option.getD_some]
  payout i hi := hand.allocated_payout hi
  winners := List.map_snd_zip (by simp [netAmounts_length])
  shared prize hprize := by
    have ⟨hnodup, hlt, hne⟩ := hand.prize_winners hprize
    exact ⟨fun i ↦ shareOf_of_not_mem, fun i hi j hj ↦ shareOf_near hi hj,
      shareOf_sum hnodup hlt hne⟩
  bounded i hi := by
    have hpot := hand.refund_winnings_le hi
    rw [hand.allocated_payout hi, Option.getD_some, Hand.payoutOf]
    omega
  folded i hi hfolded := by
    have hbet := h.bet_le i hi
    have hrefund := hand.refund_le i
    rw [hand.allocated_payout hi, Option.getD_some, Hand.payoutOf, hand.winnings_folded hfolded]
    omega

/-- If the payouts are allocated, every layer went to its best hands and the accounts are even; the
call ends neither in a failed subtraction nor in the check of the accounts. -/
theorem allocatePayouts_allocated (s : HandState) :
    OnReturn s allocatePayouts (fun _ t ↦ Allocated s.hand t.hand) ∧
      After s allocatePayouts fun r _ ↦ r ≠ .error .stopped ∧
        r ≠ .error (.exception (.config "payout accounting mismatch")) := by
  have hgives := allocatePayouts_gives s
  constructor
  · apply After.returned hgives
    rintro _ t ⟨rfl, hpayable⟩
    exact hpayable.allocated
  · apply After.mono hgives
    intro r t hr
    cases r with
    | ok a => exact ⟨nofun, nofun⟩
    | error e =>
        exact ⟨fun h ↦ hr.1 (Except.error.inj h), fun h ↦ hr.2 (Except.error.inj h)⟩

/-- A folded player bet most, one is all in, and two tie for the lower pot. -/
def sidePots : Hand :=
  { rakeBps := 500
    minRake := 1
    players := [
      { stack := 100, bet := 70, folded := true },
      { stack := 15, bet := 15, «show» := some { rank := ⟨2, [9]⟩ } },
      { stack := 100, bet := 60, «show» := some { rank := ⟨2, [9]⟩ } },
      { stack := 80, bet := 60, «show» := some { rank := ⟨1, [14]⟩ } }] }

example : returns allocatePayouts ⟨0, sidePots, ∅⟩ ∧ OnReturn ⟨0, sidePots, ∅⟩ allocatePayouts (fun _ t ↦
    t.hand.dealerRake = 9 ∧ t.hand.players.map Player.payout = [some 40, some 29, some 197, some 20]) := by
  decide +kernel

end Stainless.Poker
