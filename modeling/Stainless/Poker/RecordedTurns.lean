import Stainless.Poker.HandPhases

/-!
# Turns that leave a mark

Once a turn is taken it is on record: a message is gone from the inbox, or the transcript of the hand is
longer.  The accounting of the payouts, which comes after the turns, takes none of that back.
-/

open Reasoning Stainless.Runtime Stainless.Crypto

namespace Stainless.Poker

/-! ## 1. Marks -/

/-- How much the turns have recorded. -/
def Hand.records (hand : Hand) : Nat :=
  hand.timeouts.length + hand.shows.length + hand.sources.length

/-- Nothing came to the inbox and nothing was struck from the record. -/
structure Later (s t : HandState) : Prop where
  inbox : ∀ key ∈ t.inbox, key ∈ s.inbox
  records : s.hand.records ≤ t.hand.records

/-- A message was taken or something was recorded. -/
def Marked (s t : HandState) : Prop :=
  (∃ key ∈ s.inbox, key ∉ t.inbox) ∨ s.hand.records < t.hand.records

theorem Later.refl (s : HandState) : Later s s := ⟨fun _ h ↦ h, Nat.le_refl _⟩

theorem Later.trans {s t u : HandState} (h : Later s t) (h' : Later t u) : Later s u :=
  ⟨fun key hkey ↦ h.inbox key (h'.inbox key hkey), Nat.le_trans h.records h'.records⟩

theorem Later.marked {s t u : HandState} (h : Later s t) (h' : Marked t u) : Marked s u := by
  rcases h' with ⟨key, hkey, hgone⟩ | hless
  · exact .inl ⟨key, h.inbox key hkey, hgone⟩
  · exact .inr (Nat.lt_of_le_of_lt h.records hless)

theorem Marked.later {s t u : HandState} (h : Marked s t) (h' : Later t u) : Marked s u := by
  rcases h with ⟨key, hkey, hgone⟩ | hless
  · exact .inl ⟨key, hkey, fun hback ↦ hgone (h'.inbox key hback)⟩
  · exact .inr (Nat.lt_of_lt_of_le hless h'.records)

theorem Counted.operations {s t : HandState} (h : Counted s t) :
    t = { s with operations := t.operations } := by
  have hframe : Frame fun s t : HandState ↦ t = { s with operations := t.operations } :=
    ⟨fun _ ↦ rfl, fun _ _ _ h h' ↦ by rw [h', h], fun _ ↦ rfl⟩
  exact hframe.of_counted h

/-- The commitments of the first players. -/
def commitTurns (native : Native) (s : HandState) (k : Nat) : HandState :=
  (List.range k).foldl (commitPlayer native) s

/-- The hand without its payouts and its rake. -/
def Hand.unpaid (hand : Hand) : Hand :=
  { hand with dealerRake := 0, players := hand.players.map fun player ↦ { player with payout := none } }

/-- Only payouts and rake were changed. -/
structure Unpaid (s t : HandState) : Prop where
  hand : t.hand.unpaid = s.hand.unpaid
  inbox : t.inbox = s.inbox

theorem Unpaid.payoutFrame : HandState.PayoutFrame Unpaid where
  refl _ := ⟨rfl, rfl⟩
  trans _ _ _ h h' := ⟨h'.hand.trans h.hand, h'.inbox.trans h.inbox⟩
  next _ := ⟨rfl, rfl⟩
  rake _ _ := ⟨rfl, rfl⟩
  payout s index payout := by
    refine ⟨?_, rfl⟩
    have hplayers : (s.hand.players.modify index fun player ↦ { player with payout := some payout }).map
        (fun player ↦ { player with payout := none }) =
        s.hand.players.map fun player ↦ { player with payout := none } := by
      apply List.ext_getElem?
      intro j
      rw [List.getElem?_map, List.getElem?_map, List.getElem?_modify]
      cases s.hand.players[j]? with
      | none => rfl
      | some player =>
          show some { (if index = j then { player with payout := some payout } else player) with
            payout := none } = _
          split
          · rfl
          · rfl
    unfold Hand.unpaid
    dsimp only
    rw [hplayers]

/-- What was on record before the accounting is on record after it. -/
theorem Marked.unpaid {s t u : HandState} (h : Marked s t) (hunpaid : Unpaid t u) :
    ¬(u.hand = s.hand ∧ u.inbox = s.inbox) := by
  intro hsame
  rcases h with ⟨key, hkey, hgone⟩ | hless
  · rw [← hsame.2, hunpaid.inbox] at hkey
    exact hgone hkey
  · have hrecords := congrArg Hand.records hunpaid.hand
    change u.hand.records = t.hand.records at hrecords
    rw [hsame.1] at hrecords
    omega

end Stainless.Poker
