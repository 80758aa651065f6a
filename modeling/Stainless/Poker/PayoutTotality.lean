import Stainless.Poker.PayoutRuns
import Stainless.Crypto.CheckedMultiplication

/-!
# Payouts that are never refused

Where every player paid the small blind and the ranks of all unfolded players are known, no amount
overflows and no check of `allocate_payouts` fails.
-/

open Reasoning Stainless.Runtime Stainless.Crypto

namespace Stainless.Poker

/-! ## 1. Calls that return -/

section Calls

variable {s : HandState}

/-- What is known of a call that may be refused, where it is not. -/
theorem succeeds_gives {α : Type} {m : HandM α} {P P' : α → HandState → Prop} (h : Succeeds s m P)
    (hgives : Gives s m P') : Succeeds s m P' :=
  h.onReturn (After.returned hgives fun _ _ hP ↦ hP)

theorem requireConfig_succeeds {c : Prop} [Decidable c] {message : String}
    {P : Unit → HandState → Prop} (hc : c) (h : P () s) :
    Succeeds s (requireConfig c message) P := by
  rw [requireConfig, if_pos hc]
  exact .pure h

theorem safeAmountAdd_succeeds {left right : Nat} {P : Nat → HandState → Prop}
    (hle : left + right ≤ maxAmount) (h : P (left + right) s) :
    Succeeds s (safeAmountAdd left right) P :=
  .bind (requireConfig_succeeds (by omega) (.pure h))

theorem safeAmountMul_succeeds {left right : Nat} {P : Nat → HandState → Prop}
    (hle : left * right ≤ maxAmount) (h : P (left * right) s) :
    Succeeds s (safeAmountMul left right) P := by
  apply Succeeds.bind
  apply requireConfig_succeeds _ (.pure h)
  by_cases hzero : right = 0
  · exact .inl hzero
  · exact .inr ((Nat.le_div_iff_mul_le (Nat.pos_of_ne_zero hzero)).mpr hle)

theorem subAmount_succeeds {left right : Nat} {P : Nat → HandState → Prop} (hle : right ≤ left)
    (h : P (left - right) s) : Succeeds s (subAmount left right) P := by
  rw [subAmount, if_pos hle]
  exact .pure h

theorem safeMulDiv_succeeds {left right divisor : Nat} {P : Nat → HandState → Prop}
    (hzero : divisor ≠ 0) (hle : left * right / divisor ≤ maxAmount)
    (h : P (left * right / divisor) s) : Succeeds s (safeMulDiv left right divisor) P := by
  have ⟨quotient, hquotient⟩ := mulDivFloor_returns hzero hle
  rw [safeMulDiv, hquotient]
  show Succeeds s (pure quotient) P
  rw [mulDivFloor_ok hquotient]
  exact .pure h

end Calls

/-! ## 2. The vector of payouts -/

section Vector

variable {s : HandState} {n : Nat} {payouts : List Nat} {f : Nat → Nat}

theorem Paid.add_succeeds {index amount : Nat} (h : Paid n payouts f) (hindex : index < n)
    (hle : f index + amount ≤ maxAmount) :
    Succeeds s (addPayout payouts index amount) fun result t ↦
      t = s ∧ Paid n result fun i ↦ f i + if i = index then amount else 0 := by
  apply succeeds_gives (P := fun _ _ ↦ True) _ (h.add hindex)
  apply Succeeds.bind
  rw [h.payout index hindex]
  exact safeAmountAdd_succeeds hle (.pure trivial)

theorem Paid.addAll_succeeds {delta : Nat} {indices : List Nat} (h : Paid n payouts f)
    (hnodup : indices.Nodup) (hlt : ∀ i ∈ indices, i < n)
    (hle : ∀ i ∈ indices, f i + delta ≤ maxAmount) :
    Succeeds s (indices.foldlM (fun payouts index ↦ addPayout payouts index delta) payouts)
      fun result t ↦ t = s ∧ Paid n result fun i ↦ f i + if i ∈ indices then delta else 0 := by
  apply succeeds_gives (P := fun _ _ ↦ True) _ (h.addAll hnodup hlt)
  induction indices generalizing payouts f with
  | nil => exact .pure trivial
  | cons index indices ih =>
      have ⟨hnot, hnodup'⟩ := List.nodup_cons.mp hnodup
      rw [List.foldlM_cons]
      apply Succeeds.bind
      apply (h.add_succeeds (hlt index List.mem_cons_self) (hle index List.mem_cons_self)).mono
      rintro result t ⟨rfl, hresult⟩
      apply ih hresult hnodup' fun i hi ↦ hlt i (List.mem_cons_of_mem _ hi)
      intro i hi
      -- the first one is not among the others
      have hne : i ≠ index := fun heq ↦ hnot (heq ▸ hi)
      rw [if_neg hne, Nat.add_zero]
      exact hle i (List.mem_cons_of_mem _ hi)

theorem Paid.share_succeeds {net : Nat} {winners : List Nat} (h : Paid n payouts f)
    (hnodup : winners.Nodup) (hlt : ∀ i ∈ winners, i < n)
    (hle : ∀ i ∈ winners, f i + shareOf net winners i ≤ maxAmount) :
    Succeeds s
      ((List.range winners.length).foldlM
        (fun payouts offset ↦ do
          let share ← splitAmount net winners.length offset
          addPayout payouts (winners.getD offset 0) share) payouts)
      fun result t ↦ t = s ∧ Paid n result fun i ↦ f i + shareOf net winners i := by
  apply succeeds_gives (P := fun _ _ ↦ True) _ (h.share hnodup hlt)
  apply (Succeeds.range (J := fun k result t ↦ t = s ∧
    Paid n result fun i ↦ f i + if i ∈ winners.take k then shareOf net winners i else 0) ?_ ?_).mono
  · exact fun _ _ _ ↦ trivial
  · exact ⟨rfl, h.congr fun i _ ↦ by simp⟩
  · rintro k result t hk ⟨rfl, hresult⟩
    have hwinner : winners.getD k 0 = winners[k] := by simp [hk]
    have hmem : winners[k] ∈ winners := List.getElem_mem hk
    have hshare : shareOf net winners winners[k] =
        net / winners.length + if k < net % winners.length then 1 else 0 := by
      rw [shareOf, if_pos hmem, hnodup.idxOf_getElem k hk]
    have hfresh : winners[k] ∉ winners.take k := by
      intro hin
      obtain ⟨j, hj, heq⟩ := List.mem_take_iff_getElem.mp hin
      have hjk := (hnodup.getElem_inj_iff).mp heq
      omega
    refine .bind (.bind (requireConfig_succeeds ⟨by omega, hk⟩ (.pure ?_)))
    rw [← hshare, hwinner]
    apply (hresult.add_succeeds (hlt _ hmem) _).mono
    · rintro result' u ⟨rfl, hresult'⟩
      refine ⟨rfl, hresult'.congr fun i _ ↦ ?_⟩
      have htake : i ∈ winners.take (k + 1) ↔ i ∈ winners.take k ∨ i = winners[k] := by
        rw [List.take_succ_eq_append_getElem hk, List.mem_append, List.mem_singleton]
      by_cases heq : i = winners[k]
      · rw [heq, if_neg hfresh, if_pos rfl, if_pos (by rw [← heq, htake]; exact .inr heq)]
        omega
      · simp [htake, heq]
    · rw [if_neg hfresh, Nat.add_zero]
      exact hle _ hmem

end Vector

/-! ## 3. The layers -/

/-- Where two unfolded players are left, all of them have shown. -/
def Hand.RanksKnown (hand : Hand) : Prop :=
  1 < activeCount hand → ∀ i < hand.players.length, (hand.player i).folded = false →
    (hand.player i).show.isSome = true

theorem layerWinners_succeeds (hand : Hand) {level : Nat} (s : HandState)
    (hne : hand.eligible level ≠ [])
    (hshown : (hand.eligible level).length ≠ 1 → ∀ i ∈ hand.eligible level,
      (hand.player i).show.isSome = true) :
    Succeeds s (layerWinners hand (hand.eligible level)) fun winners t ↦
      t = s ∧ winners = hand.best level := by
  apply succeeds_gives (P := fun _ _ ↦ True) _ (layerWinners_gives hand level s)
  refine .bind (requireConfig_succeeds (List.length_pos_of_ne_nil hne) ?_)
  by_cases hone : (hand.eligible level).length = 1
  · show Succeeds s (if _ then _ else _) _
    rw [if_pos hone]
    exact .pure trivial
  · show Succeeds s (if _ then _ else _) _
    rw [if_neg hone]
    apply Succeeds.bind
    apply (Succeeds.foldlM (I := fun rest _ _ ↦ ∀ i ∈ rest, i ∈ hand.eligible level)
      (fun i hi ↦ hi) ?_).mono
    · exact fun _ _ _ ↦ .pure trivial
    · intro index rest acc t hrest
      refine .bind (requireConfig_succeeds (hshown hone index (hrest index List.mem_cons_self)) ?_)
      have htail : ∀ i ∈ rest, i ∈ hand.eligible level := fun i hi ↦
        hrest i (List.mem_cons_of_mem _ hi)
      cases hwinning : acc.1 with
      | none => exact .pure htail
      | some winning =>
          by_cases hgt : compareRank (hand.rank index) winning > 0
          · show Succeeds t (if compareRank (hand.rank index) winning > 0 then _ else _) _
            rw [if_pos hgt]
            exact .pure htail
          · show Succeeds t (if compareRank (hand.rank index) winning > 0 then _ else
              if compareRank (hand.rank index) winning = 0 then _ else _) _
            rw [if_neg hgt]
            split
            · exact .pure htail
            · exact .pure htail

theorem Hand.players_eq (hand : Hand) :
    hand.players = (List.range hand.players.length).map hand.player := by
  apply List.ext_getElem
  · rw [List.length_map, List.length_range]
  · intro i hi _
    rw [List.getElem_map, List.getElem_range, hand.player_of_lt hi]

theorem Hand.activeCount_eq (hand : Hand) : activeCount hand =
    ((List.range hand.players.length).filter fun i ↦ !(hand.player i).folded).length := by
  have hmap : activeCount hand = ((List.range hand.players.length).map hand.player).countP
      fun player ↦ !player.folded := by
    rw [← hand.players_eq]
    rfl
  rw [hmap, List.countP_map, List.countP_eq_length_filter]
  rfl

/-- More than one eligible player is more than one unfolded player. -/
theorem Hand.eligible_length_le (hand : Hand) (level : Nat) :
    (hand.eligible level).length ≤ activeCount hand := by
  rw [hand.activeCount_eq]
  exact (List.filter_sublist.filter _).length_le

theorem Hand.RanksKnown.eligible {hand : Hand} (h : hand.RanksKnown) {level : Nat}
    (hne : hand.eligible level ≠ []) (hone : (hand.eligible level).length ≠ 1) :
    ∀ i ∈ hand.eligible level, (hand.player i).show.isSome = true := by
  intro i hi
  have hcount := hand.eligible_length_le level
  have hpos := List.length_pos_of_ne_nil hne
  have ⟨hcontributes, hin⟩ := hand.mem_eligible.mp hi
  exact h (by omega) i (hand.mem_contributors.mp hcontributes).1 hin

/-- The amounts of the layers fit. -/
theorem collectLayers_succeeds (hand : Hand) (hknown : hand.RanksKnown) {rest : List Nat}
    {count previous : Nat} {acc : Layers} {f : Nat → Nat} {s : HandState}
    (habove : Above hand previous rest) (hcount : rest.length ≤ count)
    (hpaid : Paid hand.players.length acc.payouts f)
    (hpayout : ∀ i < hand.players.length,
      f i + hand.refundOf (between previous rest) i ≤ maxAmount)
    (htotal : acc.matchedTotal +
      (((between previous rest).filter fun l ↦ hand.matched l.2).map hand.pot).sum ≤ maxAmount) :
    Succeeds s (collectLayers hand count previous acc) fun _ _ ↦ True := by
  induction rest generalizing count previous acc f with
  | nil =>
      cases count with
      | zero => exact .pure trivial
      | succ count =>
          rw [collectLayers, habove.next]
          exact .pure trivial
  | cons level rest ih =>
      obtain ⟨count, hcount_eq⟩ : ∃ c, count = c + 1 := ⟨count - 1, by rw [List.length_cons] at hcount; omega⟩
      rw [hcount_eq] at hcount ⊢
      have hlt : previous < level := (List.pairwise_cons.mp habove.sorted).1 level List.mem_cons_self
      have hlayers : between previous (level :: rest) = (previous, level) :: between level rest := rfl
      rw [collectLayers, habove.next]
      show Succeeds s (subAmount level previous >>= fun delta ↦
        if (hand.contributors level).length = 1 ∨ (hand.eligible level).length = 0 then _ else _) _
      refine .bind (subAmount_succeeds (by omega) ?_)
      have hcount' : rest.length ≤ count := by
        rw [List.length_cons] at hcount
        omega
      by_cases hback : (hand.contributors level).length = 1 ∨ (hand.eligible level).length = 0
      -- the layer goes back to those who paid into it
      · rw [if_pos hback]
        have hmatched : hand.matched level = false := by
          simp only [Hand.matched, hback, decide_true, Bool.not_true]
        have hrefund : ∀ i, hand.refundOf (between previous (level :: rest)) i =
            (if level ≤ (hand.player i).bet then level - previous else 0) +
              hand.refundOf (between level rest) i := by
          intro i
          simp [hlayers, Hand.refundOf, hmatched]
        apply Succeeds.bind
        apply (hpaid.addAll_succeeds (hand.contributors_nodup level)
          (fun i hi ↦ (hand.mem_contributors.mp hi).1) _).mono
        · rintro payouts t ⟨rfl, hpayouts⟩
          apply ih habove.tail hcount' hpayouts
          · intro i hi
            have hle := hpayout i hi
            rw [hrefund i] at hle
            simp only [hand.mem_contributors, hi, true_and]
            omega
          · rw [hlayers, List.filter_cons, if_neg (by rw [hmatched]; exact Bool.false_ne_true)] at htotal
            exact htotal
        · intro i hi
          obtain ⟨hi', hlevel⟩ := hand.mem_contributors.mp hi
          have hle := hpayout i hi'
          rw [hrefund i, if_pos hlevel] at hle
          omega
      -- the layer has a winner, and its pot is one term of the total
      · rw [if_neg hback]
        have hmatched : hand.matched level = true := by
          simp only [Hand.matched, hback, decide_false, Bool.not_false]
        obtain ⟨_, hne⟩ := hand.matched_iff.mp hmatched
        rw [hlayers, List.filter_cons, if_pos hmatched, List.map_cons, List.sum_cons] at htotal
        have hamount : hand.pot (previous, level) ≤ maxAmount := by omega
        refine .bind (safeAmountMul_succeeds hamount (.bind ?_))
        apply (layerWinners_succeeds hand s hne (hknown.eligible hne)).mono
        rintro winners t ⟨rfl, hwinners⟩
        have hsum : acc.matchedTotal + hand.pot (previous, level) ≤ maxAmount := by omega
        refine .bind (safeAmountAdd_succeeds hsum ?_)
        refine Succeeds.mono (ih (f := f) habove.tail hcount' hpaid ?_ ?_) fun _ _ _ ↦ trivial
        · intro i hi
          have hle := hpayout i hi
          simpa [hlayers, Hand.refundOf, hmatched] using hle
        · show acc.matchedTotal + hand.pot (previous, level) + _ ≤ _
          omega

/-! ## 4. The shares -/

theorem shareLayers_succeeds (hand : Hand) {rake total : Nat} (hle : rake ≤ total) (hpos : 0 < total)
    (hmax : total ≤ maxAmount) {layers : List (Nat × Nat)} {acc : Shares} {f : Nat → Nat}
    {s : HandState} (hpaid : Paid hand.players.length acc.payouts f)
    (hseen : acc.rakeSeen = rake * acc.matchedSeen / total)
    (htotal : acc.matchedSeen + (layers.map hand.pot).sum ≤ total)
    (hpayout : ∀ i < hand.players.length,
      f i + hand.winningsOf rake total acc.matchedSeen layers i ≤ maxAmount) :
    Succeeds s ((layers.map hand.layer).foldlM (shareLayer rake total) acc) fun _ _ ↦ True := by
  induction layers generalizing acc f with
  | nil => exact .pure trivial
  | cons l layers ih =>
      have ⟨hmono, hstep⟩ := rake_step hle hpos acc.matchedSeen (hand.pot l)
      rw [List.map_cons, List.sum_cons] at htotal
      -- the rake on a part of the pot is no more than the rake
      have hpart : rake * (acc.matchedSeen + hand.pot l) / total ≤ rake := by
        apply Nat.div_le_of_le_mul
        rw [Nat.mul_comm total]
        exact Nat.mul_le_mul_left _ (by omega)
      have hwinnings : ∀ i, hand.winningsOf rake total acc.matchedSeen (l :: layers) i =
          shareOf (hand.pot l - (rake * (acc.matchedSeen + hand.pot l) / total -
              rake * acc.matchedSeen / total)) (hand.best l.2) i +
            hand.winningsOf rake total (acc.matchedSeen + hand.pot l) layers i := by
        intro i
        simp [Hand.winningsOf, netAmounts]
      have hamount : acc.matchedSeen + hand.pot l ≤ maxAmount := by omega
      rw [List.map_cons, List.foldlM_cons]
      refine .bind (.bind (safeAmountAdd_succeeds hamount (.bind (safeMulDiv_succeeds (by omega) ?_ ?_))))
      · show rake * (acc.matchedSeen + hand.pot l) / total ≤ maxAmount
        omega
      · show Succeeds s (subAmount (rake * (acc.matchedSeen + hand.pot l) / total) acc.rakeSeen >>= _) _
        rw [hseen]
        refine .bind (subAmount_succeeds hmono (.bind (subAmount_succeeds hstep (.bind ?_))))
        apply (hpaid.share_succeeds (hand.best_nodup l.2) (fun i hi ↦
          (hand.mem_contributors.mp (hand.mem_eligible.mp (hand.best_subset hi)).1).1) _).mono
        · rintro payouts t ⟨rfl, hpayouts⟩
          apply Succeeds.pure
          refine Succeeds.mono (ih hpayouts rfl ?_ fun i hi ↦ ?_) fun _ _ _ ↦ trivial
          · show acc.matchedSeen + hand.pot l + _ ≤ total
            omega
          · have hle := hpayout i hi
            rw [hwinnings i] at hle
            rw [Nat.add_assoc]
            exact hle
        · intro i hi
          have hi' := (hand.mem_contributors.mp (hand.mem_eligible.mp (hand.best_subset hi)).1).1
          have hle := hpayout i hi'
          rw [hwinnings i] at hle
          show f i + shareOf (hand.pot l - _) (hand.best l.2) i ≤ maxAmount
          omega

/-! ## 5. Hands that can pay -/

/-- Every player paid the small blind, and the amounts and the rake are within their bounds. -/
structure Hand.Solvent (hand : Hand) : Prop where
  two_le : 2 ≤ hand.players.length
  blind_pos : 0 < hand.smallBlind
  blind_le : ∀ i < hand.players.length, hand.smallBlind ≤ (hand.player i).bet
  bet_le : ∀ i < hand.players.length, (hand.player i).bet ≤ (hand.player i).stack
  minRake_le : hand.minRake ≤ hand.smallBlind
  rakeBps_le : hand.rakeBps ≤ 10000
  stacks_le : ∑ i ∈ Finset.range hand.players.length, (hand.player i).stack ≤ maxAmount

/-- Where all folded, every bet goes back. -/
theorem Hand.refund_folded (hand : Hand) (hactive : activeCount hand = 0) (i : Nat) : hand.refund i = (hand.player i).bet := by
  have hnone : ∀ level, hand.matched level = false := by
    intro level
    have hlength := hand.eligible_length_le level
    simp only [Hand.matched, show (hand.eligible level).length = 0 by omega, or_true, decide_true,
      Bool.not_true]
  have hall : ((between 0 hand.levels).filter fun l ↦ !hand.matched l.2) = between 0 hand.levels := by
    rw [List.filter_eq_self]
    intro l _
    rw [hnone l.2]
    rfl
  rw [Hand.refund, hall, between_height hand.levels_sorted (hand.bet_mem_levels i), Nat.sub_zero]

namespace Hand.Solvent

variable {hand : Hand} (h : hand.Solvent)
include h

/-- All players pay into the lowest layer. -/
theorem lowest : ∃ level rest, hand.levels = level :: rest ∧ hand.smallBlind ≤ level ∧
    hand.contributors level = List.range hand.players.length := by
  have hmin : ∀ level ∈ hand.levels, hand.smallBlind ≤ level := by
    intro level hlevel
    have ⟨_, player, hplayer, hbet⟩ := hand.mem_levels.mp hlevel
    have ⟨i, hi, heq⟩ := List.getElem_of_mem hplayer
    have hle := h.blind_le i hi
    rw [hand.player_of_lt hi, heq, hbet] at hle
    exact hle
  have hfirst : (hand.player 0).bet ∈ hand.levels := by
    have hpos := h.blind_le 0 (by have := h.two_le; omega)
    have hblind := h.blind_pos
    rcases List.mem_cons.mp (hand.bet_mem_levels 0) with hzero | hmem
    · omega
    · exact hmem
  cases hlevels : hand.levels with
  | nil =>
      rw [hlevels] at hfirst
      exact absurd hfirst List.not_mem_nil
  | cons level rest =>
      refine ⟨level, rest, rfl, hmin level (by rw [hlevels]; exact List.mem_cons_self), ?_⟩
      have hsorted := hand.levels_sorted
      rw [hlevels] at hsorted
      have hleast := (List.pairwise_cons.mp (List.pairwise_cons.mp hsorted).2).1
      rw [Hand.contributors, List.filter_eq_self]
      intro i hi
      have hbet := h.blind_le i (List.mem_range.mp hi)
      have hblind := h.blind_pos
      have hmem := (List.mem_cons.mp (hand.bet_mem_levels i)).resolve_left (by omega)
      rw [hlevels] at hmem
      rcases List.mem_cons.mp hmem with heq | hrest
      · exact decide_eq_true (by omega)
      · have hlt := hleast _ hrest
        exact decide_eq_true (by omega)

/-- While a player is left, the pot holds the small blind of every player. -/
theorem blinds_le (hactive : 0 < activeCount hand) :
    hand.smallBlind * hand.players.length ≤ hand.matchedPot := by
  have ⟨level, rest, hlevels, hblind, hall⟩ := h.lowest
  have heligible : 0 < (hand.eligible level).length := by
    rw [Hand.eligible, hall, ← hand.activeCount_eq]
    exact hactive
  have hmatched : hand.matched level = true := by
    have htwo := h.two_le
    rw [hand.matched_iff, hall, List.length_range]
    exact ⟨by omega, List.ne_nil_of_length_pos heligible⟩
  have hpot : hand.pot (0, level) = level * hand.players.length := by
    rw [Hand.pot, hall, List.length_range]
    rfl
  have hmem : (0, level) ∈ hand.matchedLayers := by
    rw [Hand.matchedLayers, List.mem_filter, hlevels]
    exact ⟨List.mem_cons_self, hmatched⟩
  calc hand.smallBlind * hand.players.length
    _ ≤ level * hand.players.length := Nat.mul_le_mul_right _ hblind
    _ = hand.pot (0, level) := hpot.symm
    _ ≤ hand.matchedPot := List.single_le_sum (fun _ _ ↦ Nat.zero_le _) _ (List.mem_map_of_mem hmem)

theorem bets_sum_le : ∑ i ∈ Finset.range hand.players.length, (hand.player i).bet ≤
    ∑ i ∈ Finset.range hand.players.length, (hand.player i).stack :=
  Finset.sum_le_sum fun i hi ↦ h.bet_le i (Finset.mem_range.mp hi)

theorem matchedPot_le : hand.matchedPot ≤ maxAmount := by
  have hbets := hand.refund_matched_sum
  have hle := h.bets_sum_le
  have hstacks := h.stacks_le
  omega

/-- The least rake of all players. -/
theorem minRakes_le : hand.minRake * hand.players.length ≤ hand.smallBlind * hand.players.length :=
  Nat.mul_le_mul_right _ h.minRake_le

theorem blinds_le_stacks : hand.smallBlind * hand.players.length ≤
    ∑ i ∈ Finset.range hand.players.length, (hand.player i).stack := by
  have hblinds : ∑ i ∈ Finset.range hand.players.length, hand.smallBlind =
      hand.smallBlind * hand.players.length := by
    rw [Finset.sum_const_nat fun _ _ ↦ rfl, Finset.card_range, Nat.mul_comm]
  rw [← hblinds]
  exact Finset.sum_le_sum fun i hi ↦
    (h.blind_le i (Finset.mem_range.mp hi)).trans (h.bet_le i (Finset.mem_range.mp hi))

/-- No player has more than all stacks before the rake is taken. -/
theorem payout_le {i : Nat} (hi : i < hand.players.length) :
    (hand.player i).stack - (hand.player i).bet + hand.refund i + hand.winnings i ≤ maxAmount := by
  have hpot := hand.refund_winnings_le hi
  have hmin : ∑ j ∈ Finset.range hand.players.length, min (hand.player i).bet (hand.player j).bet ≤
      ∑ j ∈ Finset.range hand.players.length, (hand.player j).bet :=
    Finset.sum_le_sum fun j _ ↦ Nat.min_le_right _ _
  have hrest : (hand.player i).stack - (hand.player i).bet ≤
      ∑ j ∈ Finset.range hand.players.length, ((hand.player j).stack - (hand.player j).bet) :=
    Finset.single_le_sum (f := fun j ↦ (hand.player j).stack - (hand.player j).bet)
      (fun _ _ ↦ Nat.zero_le _) (Finset.mem_range.mpr hi)
  have hsplit : ∑ j ∈ Finset.range hand.players.length, ((hand.player j).stack - (hand.player j).bet) +
      ∑ j ∈ Finset.range hand.players.length, (hand.player j).bet =
        ∑ j ∈ Finset.range hand.players.length, (hand.player j).stack := by
    rw [← Finset.sum_add_distrib]
    apply Finset.sum_congr rfl
    intro j hj
    have := h.bet_le j (Finset.mem_range.mp hj)
    omega
  have hstacks := h.stacks_le
  omega

/-- The pot is empty only where all folded. -/
theorem matchedPot_eq_zero (hzero : hand.matchedPot = 0) : activeCount hand = 0 := by
  by_contra hactive
  have hblinds := h.blinds_le (Nat.pos_of_ne_zero hactive)
  have hpos := Nat.mul_pos h.blind_pos (show 0 < hand.players.length by have := h.two_le; omega)
  omega

theorem rake_le (hpos : 0 < hand.matchedPot) : hand.rake ≤ hand.matchedPot := by
  have hactive : 0 < activeCount hand := by
    by_contra hnone
    have hrefunds : ∑ i ∈ Finset.range hand.players.length, hand.refund i =
        ∑ i ∈ Finset.range hand.players.length, (hand.player i).bet :=
      Finset.sum_congr rfl fun i _ ↦ hand.refund_folded (by omega) i
    have hbets := hand.refund_matched_sum
    omega
  have hblinds := h.blinds_le hactive
  have hminRakes := h.minRakes_le
  have hshare : hand.matchedPot * hand.rakeBps / 10000 ≤ hand.matchedPot := by
    apply Nat.div_le_of_le_mul
    rw [Nat.mul_comm 10000]
    exact Nat.mul_le_mul_left _ h.rakeBps_le
  exact Nat.max_le.mpr ⟨hshare, by omega⟩

theorem payable : Payable hand where
  bet_le := h.bet_le
  rake_le := h.rake_le
  minRake_le hzero i hi := by
    have hbet := h.bet_le i hi
    have hblind := h.blind_le i hi
    have hminRake := h.minRake_le
    rw [hand.refund_folded (h.matchedPot_eq_zero hzero) i]
    omega

/-- The payouts while they are recorded. -/
theorem totals_le {k : Nat} (hk : k ≤ hand.players.length) :
    ∑ i ∈ Finset.range k, (hand.player i).stack ≤ maxAmount ∧
      hand.rake + ∑ i ∈ Finset.range k, hand.payoutOf i ≤ maxAmount := by
  have hsub : Finset.range k ⊆ Finset.range hand.players.length := Finset.range_subset_range.mpr hk
  have hstacks := h.stacks_le
  have hbalanced := h.payable.balanced
  have hfirst := Finset.sum_le_sum_of_subset (f := fun i ↦ (hand.player i).stack) hsub
  have hpaid := Finset.sum_le_sum_of_subset (f := hand.payoutOf) hsub
  exact ⟨by omega, by omega⟩

end Hand.Solvent

/-! ## 6. Every check passes -/

theorem applyRake_succeeds {layers : Layers} {f : Nat → Nat} {s : HandState} (h : s.hand.Solvent)
    (hpaid : Paid s.hand.players.length layers.payouts f)
    (hlayers : layers.layers = s.hand.matchedLayers.map s.hand.layer)
    (htotal : layers.matchedTotal = s.hand.matchedPot)
    (hpayout : ∀ i < s.hand.players.length, f i + s.hand.winnings i ≤ maxAmount)
    (hminRake : s.hand.matchedPot = 0 → ∀ i < s.hand.players.length, s.hand.minRake ≤ f i) :
    Succeeds s (applyRake layers (s.hand.minRake * s.hand.players.length)) fun payouts t ↦
      t = { s with hand := { s.hand with dealerRake := s.hand.rake } } ∧
        Paid s.hand.players.length payouts fun i ↦
          f i + s.hand.winnings i - if s.hand.matchedPot = 0 then s.hand.minRake else 0 := by
  refine Succeeds.mono (succeeds_gives (P := fun _ _ ↦ True) ?_ (applyRake_gives hpaid hlayers htotal))
    fun _ _ hr ↦ ⟨hr.1, hr.2.2.2⟩
  apply Succeeds.read
  by_cases hpos : layers.matchedTotal > 0
  · rw [if_pos hpos]
    have hpot : 0 < s.hand.matchedPot := htotal ▸ hpos
    have hmax := h.matchedPot_le
    have hrakeLe := h.rake_le hpot
    have hshare : layers.matchedTotal * s.hand.rakeBps / 10000 ≤ maxAmount := by
      rw [htotal]
      exact (Nat.le_max_left _ _).trans (hrakeLe.trans hmax)
    have hrake : (if s.hand.minRake * s.hand.players.length > layers.matchedTotal * s.hand.rakeBps / 10000
        then s.hand.minRake * s.hand.players.length
        else layers.matchedTotal * s.hand.rakeBps / 10000) = s.hand.rake := by
      rw [Hand.rake, htotal]
      split
      · omega
      · omega
    refine .bind (safeMulDiv_succeeds (by decide) hshare ?_)
    rw [hrake]
    refine .bind (requireConfig_succeeds (by omega) (.bind (.modify (.bind ?_))))
    rw [hlayers, htotal]
    refine Succeeds.mono (shareLayers_succeeds s.hand hrakeLe hpot hmax hpaid (by simp) ?_ hpayout) ?_
    · show 0 + s.hand.matchedPot ≤ s.hand.matchedPot
      omega
    · exact fun _ _ _ ↦ .pure trivial
  · rw [if_neg hpos]
    have hzero : s.hand.matchedPot = 0 := by omega
    refine .bind (requireConfig_succeeds (h.matchedPot_eq_zero hzero) (.bind (.modify ?_)))
    refine Succeeds.mono (Succeeds.mapM ?_) fun _ _ _ ↦ trivial
    intro payout hpayout
    obtain ⟨i, hi, heq⟩ := List.getElem_of_mem hpayout
    have hle : s.hand.minRake ≤ payout := by
      have hi' : i < s.hand.players.length := by
        rw [← hpaid.length]
        exact hi
      have hplace := hpaid.payout i hi'
      rw [List.getD_eq_getElem?_getD, List.getElem?_eq_getElem hi, Option.getD_some, heq] at hplace
      rw [hplace]
      exact hminRake hzero i hi'
    exact .bind (requireConfig_succeeds hle (subAmount_succeeds hle rfl))

theorem recordPayouts_succeeds {payouts : List Nat} {s t : HandState} (h : s.hand.Solvent)
    (hplayers : t.hand.players = s.hand.players)
    (hpaid : Paid s.hand.players.length payouts s.hand.payoutOf) :
    Succeeds t ((List.range s.hand.players.length).foldlM (recordPayout payouts) (0, s.hand.rake))
      fun _ _ ↦ True := by
  refine Succeeds.mono (Succeeds.range (J := fun k totals u ↦
    u.hand.players = s.hand.paidTo payouts k ∧
      totals = (∑ i ∈ Finset.range k, (s.hand.player i).stack,
        s.hand.rake + ∑ i ∈ Finset.range k, s.hand.payoutOf i)) ?_ ?_) fun _ _ _ ↦ trivial
  · rw [s.hand.paidTo_zero, ← hplayers]
    exact ⟨rfl, rfl⟩
  · rintro k totals u hk ⟨hu, rfl⟩
    have ⟨hstacks, hpayouts⟩ := h.totals_le (k := k + 1) hk
    rw [Finset.sum_range_succ] at hstacks hpayouts
    refine .bind (.modify (.read ?_))
    show Succeeds _ (safeAmountAdd _ ((u.hand.players.modify k _).getD k {}).stack >>= _) _
    rw [hu, s.hand.paidTo_succ, s.hand.paidTo_stack, hpaid.payout k hk]
    refine .bind (safeAmountAdd_succeeds hstacks (.bind (safeAmountAdd_succeeds (by omega) (.pure ?_))))
    rw [Finset.sum_range_succ, Finset.sum_range_succ, Nat.add_assoc]
    refine ⟨?_, rfl⟩
    rw [← s.hand.paidTo_succ, ← hu, hpaid.payout k hk]

/-- The payouts of a hand that can pay are allocated. -/
theorem allocatePayouts_succeeds {s : HandState} (h : s.hand.Solvent) (hknown : s.hand.RanksKnown) :
    Succeeds s allocatePayouts fun _ t ↦ t = { s with hand := s.hand.allocated } := by
  have hgives := (allocatePayouts_gives s).mono fun _ _ hr ↦ hr.1
  apply succeeds_gives (P := fun _ _ ↦ True) _ hgives
  apply Succeeds.read
  apply Succeeds.bind
  have hbets : Succeeds s
      (s.hand.players.mapM fun player ↦ do
        requireConfig (player.bet ≤ player.stack) "bet exceeds player stack"
        subAmount player.stack player.bet) fun _ _ ↦ True := by
    refine Succeeds.mono (Succeeds.mapM ?_) fun _ _ _ ↦ trivial
    intro player hplayer
    have ⟨i, hi, heq⟩ := List.getElem_of_mem hplayer
    have hle := h.bet_le i hi
    rw [s.hand.player_of_lt hi, heq] at hle
    exact .bind (requireConfig_succeeds hle (subAmount_succeeds hle rfl))
  apply (succeeds_gives hbets (payouts_gives s)).mono
  rintro payouts t ⟨rfl, _, hpayouts⟩
  apply Succeeds.bind
  have hmax := h.matchedPot_le
  have hcollect : Succeeds t (collectLayers t.hand t.hand.players.length 0 { payouts })
      fun _ _ ↦ True := by
    refine collectLayers_succeeds t.hand hknown t.hand.levels_above t.hand.levels_length_le hpayouts
      (fun i hi ↦ ?_) ?_
    · have hle := h.payout_le hi
      show (t.hand.player i).stack - (t.hand.player i).bet + t.hand.refund i ≤ maxAmount
      omega
    · show 0 + t.hand.matchedPot ≤ maxAmount
      omega
  apply (succeeds_gives hcollect
    (collectLayers_gives t.hand t.hand.levels_above t.hand.levels_length_le hpayouts)).mono
  rintro layers u ⟨rfl, hpaid, hlayers, htotal⟩
  have hrakes : u.hand.minRake * u.hand.players.length ≤ maxAmount :=
    (h.minRakes_le.trans h.blinds_le_stacks).trans h.stacks_le
  refine .bind (safeAmountMul_succeeds hrakes (.bind ?_))
  apply (applyRake_succeeds h hpaid (by rw [hlayers]; rfl) (by rw [htotal, Nat.zero_add]; rfl)
    (fun i hi ↦ h.payout_le hi) h.payable.minRake_le).mono
  rintro payouts' v ⟨rfl, hpaid'⟩
  refine .read (.bind ?_)
  have hrecord := recordPayouts_succeeds (s := u)
    (t := { u with hand := { u.hand with dealerRake := u.hand.rake } }) h rfl hpaid'
  apply (succeeds_gives hrecord (recordPayouts_gives (s := u) rfl)).mono
  rintro totals w ⟨rfl, rfl⟩
  have hsum : ∑ i ∈ Finset.range u.hand.players.length, payouts'.getD i 0 =
      ∑ i ∈ Finset.range u.hand.players.length, u.hand.payoutOf i :=
    Finset.sum_congr rfl fun i hi ↦ hpaid'.payout i (Finset.mem_range.mp hi)
  have hequal := h.payable.balanced
  apply requireConfig_succeeds _ trivial
  show _ = u.hand.rake + _
  rw [hsum]
  omega

end Stainless.Poker
