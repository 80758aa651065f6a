import Stainless.Poker.Hand
import Mathlib.Algebra.BigOperators.Group.List.Basic
import Mathlib.Algebra.BigOperators.Ring.Finset
import Mathlib.Algebra.Order.BigOperators.Group.Finset
import Mathlib.Data.List.Sort
import Mathlib.Data.Prod.Lex
import Mathlib.Tactic.Ring

/-!
# What the players of a hand are paid

The pot lies in layers between neighbouring bets.  A layer that one player alone pays into, or that
only folded players pay into, goes back; the others pay the rake and are shared by the best hands.
-/

open Reasoning Stainless.Runtime Stainless.Crypto

namespace Stainless.Poker

/-! ## 1. Layers -/

namespace Hand

variable (hand : Hand)

def player (i : Nat) : Player := hand.players.getD i {}

def rank (i : Nat) : Rank := ((hand.player i).show.getD {}).rank

/-- The players who pay into the layer below `level`. -/
def contributors (level : Nat) : List Nat :=
  (List.range hand.players.length).filter fun i ↦ (hand.player i).bet ≥ level

def eligible (level : Nat) : List Nat :=
  (hand.contributors level).filter fun i ↦ !(hand.player i).folded

/-- The eligible players of maximal rank. -/
def best (level : Nat) : List Nat :=
  (hand.eligible level).filter fun i ↦
    (hand.eligible level).all fun j ↦ compareRank (hand.rank j) (hand.rank i) ≤ 0

/-- The layer is neither one player's alone nor left by all. -/
def matched (level : Nat) : Bool :=
  !decide ((hand.contributors level).length = 1 ∨ (hand.eligible level).length = 0)

/-- The different positive bets, ascending. -/
def levels : List Nat := ((hand.players.map Player.bet).filter (0 < ·)).dedup.insertionSort (· ≤ ·)

end Hand

/-- Every level with the one below it. -/
def between (previous : Nat) (levels : List Nat) : List (Nat × Nat) :=
  (previous :: levels).zip levels

namespace Hand

variable (hand : Hand)

def pot (layer : Nat × Nat) : Nat := (layer.2 - layer.1) * (hand.contributors layer.2).length

def matchedLayers : List (Nat × Nat) := (between 0 hand.levels).filter fun l ↦ hand.matched l.2

def matchedPot : Nat := (hand.matchedLayers.map hand.pot).sum

/-- What a player gets back of the layers that are not matched. -/
def refund (i : Nat) : Nat :=
  (((between 0 hand.levels).filter fun l ↦ !hand.matched l.2).map fun l ↦
    if l.2 ≤ (hand.player i).bet then l.2 - l.1 else 0).sum

def rake : Nat :=
  max (hand.matchedPot * hand.rakeBps / 10000) (hand.minRake * hand.players.length)

end Hand

/-! ## 2. Shares -/

/-- What the rake leaves of each layer; `seen` is the sum of those before. -/
def netAmounts (rake total : Nat) : Nat → List Nat → List Nat
  | _, [] => []
  | seen, amount :: amounts =>
      (amount - (rake * (seen + amount) / total - rake * seen / total)) ::
        netAmounts rake total (seen + amount) amounts

/-- The share of one winner; the first ones get the odd units. -/
def shareOf (net : Nat) (winners : List Nat) (i : Nat) : Nat :=
  if i ∈ winners then
    net / winners.length + if winners.idxOf i < net % winners.length then 1 else 0
  else 0

namespace Hand

variable (hand : Hand)

/-- The matched layers after the rake, each with its winners. -/
def prizes : List (Nat × List Nat) :=
  (netAmounts hand.rake hand.matchedPot 0 (hand.matchedLayers.map hand.pot)).zip
    (hand.matchedLayers.map fun l ↦ hand.best l.2)

def winnings (i : Nat) : Nat := (hand.prizes.map fun prize ↦ shareOf prize.1 prize.2 i).sum

end Hand

theorem shareOf_of_not_mem {net : Nat} {winners : List Nat} {i : Nat} (h : i ∉ winners) :
    shareOf net winners i = 0 := if_neg h

theorem shareOf_near {net : Nat} {winners : List Nat} {i j : Nat} (hi : i ∈ winners)
    (hj : j ∈ winners) : shareOf net winners i ≤ shareOf net winners j + 1 := by
  rw [shareOf, if_pos hi, shareOf, if_pos hj]
  split
  · omega
  · omega

theorem sum_map_range (f : Nat → Nat) (n : Nat) :
    ((List.range n).map f).sum = ∑ i ∈ Finset.range n, f i := by
  induction n with
  | zero => rfl
  | succ n ih => rw [List.sum_range_succ, Finset.sum_range_succ, ih]

/-- Every unit of a layer is shared. -/
theorem shareOf_sum {net n : Nat} {winners : List Nat} (hnodup : winners.Nodup)
    (hlt : ∀ i ∈ winners, i < n) (hne : winners ≠ []) :
    ∑ i ∈ Finset.range n, shareOf net winners i = net := by
  have hpos : 0 < winners.length := List.length_pos_of_ne_nil hne
  have hsub : winners.toFinset ⊆ Finset.range n := by
    intro i hi
    exact Finset.mem_range.mpr (hlt i (List.mem_toFinset.mp hi))
  have hwinners : ∑ i ∈ winners.toFinset, shareOf net winners i =
      ∑ i ∈ Finset.range n, shareOf net winners i := by
    apply Finset.sum_subset hsub
    intro i _ hi
    exact shareOf_of_not_mem fun h ↦ hi (List.mem_toFinset.mpr h)
  -- the winners by their places
  have hplaces : winners.map (shareOf net winners) = (List.range winners.length).map fun k ↦
      net / winners.length + if k < net % winners.length then 1 else 0 := by
    apply List.ext_getElem
    · simp
    · intro k hk hk'
      rw [List.length_map] at hk
      simp only [List.getElem_map, List.getElem_range]
      rw [shareOf, if_pos (List.getElem_mem hk), hnodup.idxOf_getElem k hk]
  have hodd : ∑ k ∈ Finset.range winners.length, (if k < net % winners.length then 1 else 0) =
      net % winners.length := by
    have hmod := Nat.mod_lt net hpos
    rw [← Finset.card_filter]
    have hfilter : (Finset.range winners.length).filter (· < net % winners.length) =
        Finset.range (net % winners.length) := by
      ext k
      simp only [Finset.mem_filter, Finset.mem_range]
      omega
    rw [hfilter, Finset.card_range]
  rw [← hwinners, List.sum_toFinset _ hnodup, hplaces, sum_map_range,
    Finset.sum_add_distrib, hodd, Finset.sum_const_nat fun _ _ ↦ rfl, Finset.card_range]
  exact Nat.div_add_mod net winners.length

/-! ## 3. The rake over the layers -/

/-- The rake grows by at most the amount of the layer. -/
theorem rake_step {rake total : Nat} (hle : rake ≤ total) (hpos : 0 < total) (seen amount : Nat) :
    rake * seen / total ≤ rake * (seen + amount) / total ∧
      rake * (seen + amount) / total - rake * seen / total ≤ amount := by
  have hmono : rake * seen ≤ rake * (seen + amount) := Nat.mul_le_mul_left _ (Nat.le_add_right _ _)
  refine ⟨Nat.div_le_div_right hmono, ?_⟩
  have hmul : rake * amount ≤ total * amount := Nat.mul_le_mul_right _ hle
  have hadd : rake * (seen + amount) ≤ rake * seen + total * amount := by
    rw [Nat.mul_add]
    omega
  have hdiv := Nat.div_le_div_right (c := total) hadd
  rw [Nat.add_mul_div_left _ _ hpos] at hdiv
  omega

theorem netAmounts_length (rake total seen : Nat) (amounts : List Nat) :
    (netAmounts rake total seen amounts).length = amounts.length := by
  induction amounts generalizing seen with
  | nil => rfl
  | cons amount amounts ih => rw [netAmounts, List.length_cons, ih, List.length_cons]

/-- What the rake leaves and the rake are the layers. -/
theorem netAmounts_sum {rake total : Nat} (hle : rake ≤ total) (hpos : 0 < total) (seen : Nat)
    (amounts : List Nat) :
    (netAmounts rake total seen amounts).sum + rake * (seen + amounts.sum) / total =
      amounts.sum + rake * seen / total := by
  induction amounts generalizing seen with
  | nil => simp [netAmounts]
  | cons amount amounts ih =>
      have hstep := rake_step hle hpos seen amount
      have hrest := ih (seen + amount)
      rw [netAmounts, List.sum_cons, List.sum_cons, ← Nat.add_assoc seen]
      omega

/-! ## 4. Neighbouring levels -/

/-- The layers up to a level are as high as the level. -/
theorem between_height {previous : Nat} {levels : List Nat}
    (hsorted : (previous :: levels).Pairwise (· < ·)) {x : Nat} (hx : x ∈ previous :: levels) :
    ((between previous levels).map fun l ↦ if l.2 ≤ x then l.2 - l.1 else 0).sum = x - previous := by
  induction levels generalizing previous with
  | nil =>
      rw [List.mem_singleton.mp hx, Nat.sub_self]
      rfl
  | cons level levels ih =>
      have ⟨hfirst, hrest⟩ := List.pairwise_cons.mp hsorted
      have hlevel := hfirst level List.mem_cons_self
      have hsplit : between previous (level :: levels) =
          (previous, level) :: between level levels := rfl
      rw [hsplit, List.map_cons, List.sum_cons]
      by_cases hprevious : x = previous
      · subst hprevious
        -- every layer lies above
        have hzero : ((between level levels).map fun l ↦ if l.2 ≤ x then l.2 - l.1 else 0).sum = 0 := by
          apply List.sum_eq_zero
          intro y hy
          obtain ⟨l, hl, rfl⟩ := List.mem_map.mp hy
          have hmem := hfirst l.2 (List.mem_cons_of_mem _ (List.of_mem_zip hl).2)
          exact if_neg (by omega)
        rw [hzero, if_neg (by omega), Nat.sub_self]
      · have hx' : x ∈ level :: levels := (List.mem_cons.mp hx).resolve_left hprevious
        have hle : level ≤ x := by
          rcases List.mem_cons.mp hx' with rfl | hmem
          · exact Nat.le_refl _
          · exact Nat.le_of_lt ((List.pairwise_cons.mp hrest).1 x hmem)
        rw [ih hrest hx', if_pos hle]
        show level - previous + (x - level) = x - previous
        omega

/-! ## 5. The layers of a hand -/

namespace Hand

variable (hand : Hand)

theorem player_of_lt {i : Nat} (hi : i < hand.players.length) : hand.player i = hand.players[i] := by
  simp [player, hi]

theorem player_of_ge {i : Nat} (hi : hand.players.length ≤ i) : hand.player i = {} := by
  simp [player, hi]

theorem mem_levels {x : Nat} :
    x ∈ hand.levels ↔ 0 < x ∧ ∃ player ∈ hand.players, player.bet = x := by
  simp [levels, and_comm]

theorem levels_sorted : (0 :: hand.levels).Pairwise (· < ·) := by
  rw [List.pairwise_cons]
  constructor
  · exact fun x hx ↦ ((hand.mem_levels).mp hx).1
  · have hle : hand.levels.Pairwise (· ≤ ·) := List.pairwise_insertionSort _ _
    have hne : hand.levels.Pairwise (· ≠ ·) :=
      ((List.perm_insertionSort _ _).nodup_iff).mpr (List.nodup_dedup _)
    exact (hle.and hne).imp fun h ↦ Nat.lt_of_le_of_ne h.1 h.2

theorem bet_mem_levels (i : Nat) : (hand.player i).bet ∈ 0 :: hand.levels := by
  by_cases hzero : (hand.player i).bet = 0
  · rw [hzero]
    exact List.mem_cons_self
  · have hi : i < hand.players.length := by
      by_contra hge
      exact hzero (by rw [hand.player_of_ge (by omega)])
    refine List.mem_cons_of_mem _ ((hand.mem_levels).mpr ⟨Nat.pos_of_ne_zero hzero, ?_⟩)
    exact ⟨hand.players[i], List.getElem_mem hi, by rw [hand.player_of_lt hi]⟩

theorem mem_contributors {level i : Nat} :
    i ∈ hand.contributors level ↔ i < hand.players.length ∧ level ≤ (hand.player i).bet := by
  simp [contributors]

theorem contributors_nodup (level : Nat) : (hand.contributors level).Nodup :=
  List.nodup_range.filter _

theorem mem_eligible {level i : Nat} :
    i ∈ hand.eligible level ↔ i ∈ hand.contributors level ∧ (hand.player i).folded = false := by
  simp [eligible]

theorem best_subset {level i : Nat} (h : i ∈ hand.best level) : i ∈ hand.eligible level :=
  List.mem_of_mem_filter h

theorem best_nodup (level : Nat) : (hand.best level).Nodup :=
  ((hand.contributors_nodup level).filter _).filter _

theorem contributors_length (level : Nat) : (hand.contributors level).length =
    ∑ j ∈ Finset.range hand.players.length, if level ≤ (hand.player j).bet then 1 else 0 := by
  rw [← sum_map_range, contributors]
  induction List.range hand.players.length with
  | nil => rfl
  | cons i is ih =>
      rw [List.map_cons, List.sum_cons, List.filter_cons]
      by_cases h : level ≤ (hand.player i).bet
      · rw [if_pos (decide_eq_true h), if_pos h, List.length_cons, ih, Nat.add_comm]
      · rw [if_neg (by simpa using h), if_neg h, ih, Nat.zero_add]

end Hand

theorem sum_map_comm {α : Type} (layers : List α) (n : Nat) (f : α → Nat → Nat) :
    (layers.map fun l ↦ ∑ j ∈ Finset.range n, f l j).sum =
      ∑ j ∈ Finset.range n, (layers.map fun l ↦ f l j).sum := by
  induction layers with
  | nil => simp
  | cons l layers ih =>
      simp only [List.map_cons, List.sum_cons, ih, Finset.sum_add_distrib]

theorem sum_map_filter_not {α : Type} (p : α → Bool) (f : α → Nat) (layers : List α) :
    ((layers.filter p).map f).sum + ((layers.filter fun l ↦ !p l).map f).sum =
      (layers.map f).sum := by
  induction layers with
  | nil => rfl
  | cons l layers ih =>
      cases hp : p l with
      | true =>
          simp only [List.filter_cons, hp, Bool.not_true, Bool.false_eq_true, if_true, if_false,
            List.map_cons, List.sum_cons]
          omega
      | false =>
          simp only [List.filter_cons, hp, Bool.not_false, Bool.false_eq_true, if_true, if_false,
            List.map_cons, List.sum_cons]
          omega

namespace Hand

variable (hand : Hand)

/-- The part of a layer that lies below a bet, player by player. -/
theorem pot_below (l : Nat × Nat) (x : Nat) : (if l.2 ≤ x then hand.pot l else 0) =
    ∑ j ∈ Finset.range hand.players.length,
      if l.2 ≤ min x (hand.player j).bet then l.2 - l.1 else 0 := by
  by_cases hx : l.2 ≤ x
  · rw [if_pos hx, pot, contributors_length, Finset.mul_sum]
    apply Finset.sum_congr rfl
    intro j _
    by_cases hj : l.2 ≤ (hand.player j).bet
    · rw [if_pos hj, if_pos (by omega), Nat.mul_one]
    · rw [if_neg hj, if_neg (by omega), Nat.mul_zero]
  · rw [if_neg hx, Finset.sum_eq_zero]
    intro j _
    exact if_neg (by omega)

/-- The layers below a player's bet hold what every bet has in common with it. -/
theorem pots_below (i : Nat) :
    ((between 0 hand.levels).map fun l ↦ if l.2 ≤ (hand.player i).bet then hand.pot l else 0).sum =
      ∑ j ∈ Finset.range hand.players.length, min (hand.player i).bet (hand.player j).bet := by
  simp only [pot_below]
  rw [sum_map_comm]
  apply Finset.sum_congr rfl
  intro j _
  have hmem : min (hand.player i).bet (hand.player j).bet ∈ 0 :: hand.levels := by
    rcases Nat.le_total (hand.player i).bet (hand.player j).bet with h | h
    · rw [Nat.min_eq_left h]
      exact hand.bet_mem_levels i
    · rw [Nat.min_eq_right h]
      exact hand.bet_mem_levels j
  rw [between_height hand.levels_sorted hmem, Nat.sub_zero]

/-- A layer, player by player. -/
theorem pot_eq (l : Nat × Nat) : hand.pot l = ∑ j ∈ Finset.range hand.players.length,
    if l.2 ≤ (hand.player j).bet then l.2 - l.1 else 0 := by
  rw [pot, contributors_length, Finset.mul_sum]
  apply Finset.sum_congr rfl
  intro j _
  split
  · rw [Nat.mul_one]
  · rw [Nat.mul_zero]

/-- All layers together hold all bets. -/
theorem pots_sum : ((between 0 hand.levels).map hand.pot).sum =
    ∑ j ∈ Finset.range hand.players.length, (hand.player j).bet := by
  rw [funext hand.pot_eq, sum_map_comm]
  apply Finset.sum_congr rfl
  intro j _
  rw [between_height hand.levels_sorted (hand.bet_mem_levels j), Nat.sub_zero]

end Hand

/-! ## 6. Ranks -/

/-- Ranks are ordered by category, then by the kickers. -/
def rankKey (rank : Rank) : Nat ×ₗ List Nat := toLex (rank.category, rank.kickers)

theorem compareKickers_eq (left right : List Nat) : compareKickers left right =
    if right < left then 1 else if left < right then -1 else 0 := by
  induction left generalizing right with
  | nil =>
      cases right with
      | nil => rfl
      | cons r right => rfl
  | cons l left ih =>
      cases right with
      | nil => rfl
      | cons r right =>
          rw [compareKickers, ih]
          simp only [List.cons_lt_cons_iff]
          by_cases hgt : l > r
          · rw [if_pos hgt, if_pos (.inl hgt)]
          · by_cases hlt : l < r
            · rw [if_neg hgt, if_pos hlt, if_neg (by omega), if_pos (.inl hlt)]
            · obtain rfl : l = r := by omega
              simp

theorem compareRank_eq (left right : Rank) : compareRank left right =
    if rankKey right < rankKey left then 1 else if rankKey left < rankKey right then -1 else 0 := by
  rw [compareRank, compareKickers_eq]
  simp only [rankKey, Prod.Lex.toLex_lt_toLex]
  by_cases hgt : left.category > right.category
  · rw [if_pos hgt, if_pos (.inl hgt)]
  · by_cases hlt : left.category < right.category
    · rw [if_neg hgt, if_pos hlt, if_neg (by omega), if_pos (.inl hlt)]
    · have hsame : left.category = right.category := by omega
      simp [hsame]

theorem compareRank_nonpos (left right : Rank) :
    compareRank left right ≤ 0 ↔ rankKey left ≤ rankKey right := by
  rw [compareRank_eq]
  by_cases hgt : rankKey right < rankKey left
  · simp [hgt]
  · by_cases hlt : rankKey left < rankKey right
    · simp [hgt, hlt, le_of_lt hlt]
    · simp [hgt, hlt, not_lt.mp hgt]

namespace Hand

variable (hand : Hand)

theorem mem_best {level i : Nat} : i ∈ hand.best level ↔ i ∈ hand.eligible level ∧
    ∀ j ∈ hand.eligible level, rankKey (hand.rank j) ≤ rankKey (hand.rank i) := by
  simp [best, compareRank_nonpos]

theorem best_ne_nil {level : Nat} (h : hand.eligible level ≠ []) : hand.best level ≠ [] := by
  obtain ⟨j, hj⟩ := List.exists_mem_of_ne_nil _ h
  obtain ⟨i, hi, hmax⟩ := (hand.eligible level).toFinset.exists_max_image
    (fun i ↦ rankKey (hand.rank i)) ⟨j, List.mem_toFinset.mpr hj⟩
  have hmem : i ∈ hand.best level := (hand.mem_best).mpr
    ⟨List.mem_toFinset.mp hi, fun j hj ↦ hmax j (List.mem_toFinset.mpr hj)⟩
  exact List.ne_nil_of_mem hmem

end Hand

/-! ## 7. What is paid -/

theorem shareOf_le (net : Nat) (winners : List Nat) (i : Nat) : shareOf net winners i ≤ net := by
  by_cases hi : i ∈ winners
  · have hpos : 0 < winners.length := List.length_pos_of_mem hi
    have hmul : net / winners.length ≤ winners.length * (net / winners.length) :=
      Nat.le_mul_of_pos_left _ hpos
    have hdiv := Nat.div_add_mod net winners.length
    rw [shareOf, if_pos hi]
    split
    · omega
    · omega
  · rw [shareOf_of_not_mem hi]
    exact Nat.zero_le _

namespace Hand

variable (hand : Hand)

/-- The shares of some layers are at most those layers below the player's bet. -/
theorem shares_le (rake total seen : Nat) (layers : List (Nat × Nat)) (i : Nat) :
    (((netAmounts rake total seen (layers.map hand.pot)).zip
        (layers.map fun l ↦ hand.best l.2)).map fun prize ↦ shareOf prize.1 prize.2 i).sum ≤
      (layers.map fun l ↦ if l.2 ≤ (hand.player i).bet then hand.pot l else 0).sum := by
  induction layers generalizing seen with
  | nil => exact Nat.le_refl _
  | cons l layers ih =>
      simp only [List.map_cons, netAmounts, List.zip_cons_cons, List.sum_cons]
      apply Nat.add_le_add _ (ih _)
      by_cases hi : i ∈ hand.best l.2
      · have hbet := (hand.mem_contributors.mp (hand.mem_eligible.mp (hand.best_subset hi)).1).2
        rw [if_pos hbet]
        exact (shareOf_le _ _ _).trans (Nat.sub_le _ _)
      · rw [shareOf_of_not_mem hi]
        exact Nat.zero_le _

theorem mem_prizes {prize : Nat × List Nat} (h : prize ∈ hand.prizes) :
    ∃ l ∈ hand.matchedLayers, prize.2 = hand.best l.2 := by
  obtain ⟨l, hl, heq⟩ := List.mem_map.mp (List.of_mem_zip h).2
  exact ⟨l, hl, heq.symm⟩

theorem matched_iff {level : Nat} : hand.matched level = true ↔
    (hand.contributors level).length ≠ 1 ∧ hand.eligible level ≠ [] := by
  simp [matched]

/-- The winners of a layer are different players, and there are some. -/
theorem prize_winners {prize : Nat × List Nat} (h : prize ∈ hand.prizes) :
    prize.2.Nodup ∧ (∀ i ∈ prize.2, i < hand.players.length) ∧ prize.2 ≠ [] := by
  obtain ⟨l, hl, heq⟩ := hand.mem_prizes h
  rw [heq]
  refine ⟨hand.best_nodup _, fun i hi ↦ ?_, ?_⟩
  · exact (hand.mem_contributors.mp (hand.mem_eligible.mp (hand.best_subset hi)).1).1
  · have hmatched : hand.matched l.2 = true := (List.mem_filter.mp hl).2
    exact hand.best_ne_nil (hand.matched_iff.mp hmatched).2

theorem winnings_folded {i : Nat} (h : (hand.player i).folded = true) : hand.winnings i = 0 := by
  apply List.sum_eq_zero
  intro share hshare
  obtain ⟨prize, hprize, rfl⟩ := List.mem_map.mp hshare
  obtain ⟨l, -, heq⟩ := hand.mem_prizes hprize
  apply shareOf_of_not_mem
  rw [heq]
  intro hi
  have hfolded := (hand.mem_eligible.mp (hand.best_subset hi)).2
  rw [h] at hfolded
  cases hfolded

/-- The winners share the matched pot without the rake. -/
theorem winnings_sum (hpos : 0 < hand.matchedPot) (hle : hand.rake ≤ hand.matchedPot) :
    ∑ i ∈ Finset.range hand.players.length, hand.winnings i + hand.rake = hand.matchedPot := by
  have hnets := netAmounts_sum hle hpos 0 (hand.matchedLayers.map hand.pot)
  have hshared : ∑ i ∈ Finset.range hand.players.length, hand.winnings i =
      (netAmounts hand.rake hand.matchedPot 0 (hand.matchedLayers.map hand.pot)).sum := by
    have hmap : (hand.prizes.map fun prize ↦
        ∑ i ∈ Finset.range hand.players.length, shareOf prize.1 prize.2 i) =
          hand.prizes.map Prod.fst := by
      apply List.map_congr_left
      intro prize hprize
      obtain ⟨hnodup, hlt, hne⟩ := hand.prize_winners hprize
      exact shareOf_sum hnodup hlt hne
    simp only [winnings]
    rw [← sum_map_comm, hmap, prizes, List.map_fst_zip (by simp [netAmounts_length])]
  have htotal : (hand.matchedLayers.map hand.pot).sum = hand.matchedPot := rfl
  rw [htotal, Nat.zero_add, Nat.mul_div_cancel _ hpos, Nat.mul_zero, Nat.zero_div, Nat.add_zero]
    at hnets
  rw [hshared]
  exact hnets

theorem refund_sum : ∑ i ∈ Finset.range hand.players.length, hand.refund i =
    (((between 0 hand.levels).filter fun l ↦ !hand.matched l.2).map hand.pot).sum := by
  simp only [refund]
  rw [funext hand.pot_eq, sum_map_comm]

/-- Refunds and the matched pot are the bets. -/
theorem refund_matched_sum :
    ∑ i ∈ Finset.range hand.players.length, hand.refund i + hand.matchedPot =
      ∑ i ∈ Finset.range hand.players.length, (hand.player i).bet := by
  have hsplit := sum_map_filter_not (fun l ↦ hand.matched l.2) hand.pot (between 0 hand.levels)
  rw [refund_sum, ← pots_sum, ← hsplit, matchedPot, matchedLayers]
  omega

theorem refund_le (i : Nat) : hand.refund i ≤ (hand.player i).bet := by
  have hsplit := sum_map_filter_not (fun l ↦ hand.matched l.2)
    (fun l ↦ if l.2 ≤ (hand.player i).bet then l.2 - l.1 else 0) (between 0 hand.levels)
  rw [between_height hand.levels_sorted (hand.bet_mem_levels i)] at hsplit
  rw [refund]
  omega

/-- A player gets of the pot at most what each bet has in common with its own. -/
theorem refund_winnings_le {i : Nat} (hi : i < hand.players.length) :
    hand.refund i + hand.winnings i ≤
      ∑ j ∈ Finset.range hand.players.length, min (hand.player i).bet (hand.player j).bet := by
  have hwinnings : hand.winnings i ≤ (hand.matchedLayers.map fun l ↦
      if l.2 ≤ (hand.player i).bet then hand.pot l else 0).sum := hand.shares_le _ _ _ _ i
  have hrefund : hand.refund i ≤ (((between 0 hand.levels).filter fun l ↦ !hand.matched l.2).map
      fun l ↦ if l.2 ≤ (hand.player i).bet then hand.pot l else 0).sum := by
    apply List.sum_le_sum
    intro l _
    by_cases hbet : l.2 ≤ (hand.player i).bet
    · have hmem : i ∈ hand.contributors l.2 := hand.mem_contributors.mpr ⟨hi, hbet⟩
      rw [if_pos hbet, if_pos hbet]
      exact Nat.le_mul_of_pos_right _ (List.length_pos_of_mem hmem)
    · rw [if_neg hbet, if_neg hbet]
  have hsplit := sum_map_filter_not (fun l ↦ hand.matched l.2)
    (fun l ↦ if l.2 ≤ (hand.player i).bet then hand.pot l else 0) (between 0 hand.levels)
  rw [← pots_below, ← hsplit]
  rw [matchedLayers] at hwinnings
  omega

end Hand

end Stainless.Poker
