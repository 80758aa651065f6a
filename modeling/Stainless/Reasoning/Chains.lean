import Mathlib.Data.Fintype.EquivFin
import Mathlib.Logic.Relation
import Mathlib.Order.WellFounded
import Mathlib.Order.RelClasses
import Mathlib.Data.Fintype.Order

/-!
# Chains

Loops that follow a partial function.  Such a loop runs forever when the chain runs into a cycle and
nothing on the way stops it.
-/

namespace Reasoning

/-- A loop with a bound on its passes that gives a result under some bound. -/
def Terminates {β : Type} (loop : Nat → Option β) : Prop := ∃ fuel, (loop fuel).isSome

theorem Terminates.of_some {β : Type} {loop : Nat → Option β} (fuel : Nat) {b : β}
    (h : loop fuel = some b) : Terminates loop :=
  ⟨fuel, by rw [h]; rfl⟩

theorem Terminates.some {β : Type} {loop : Nat → Option β} (h : Terminates loop) :
    ∃ fuel b, loop fuel = some b := by
  obtain ⟨fuel, hfuel⟩ := h
  obtain ⟨b, hb⟩ := Option.isSome_iff_exists.mp hfuel
  exact ⟨fuel, b, hb⟩

section Chains

variable {α : Type} (next : α → Option α)

/-! ## 1. Chains and cycles -/

def Reaches (a b : α) : Prop := Relation.ReflTransGen (fun x y ↦ next x = some y) a b

def OnCycle (a : α) : Prop := Relation.TransGen (fun x y ↦ next x = some y) a a

/-- The chain from `a` leads to a cycle. -/
def RunsIntoCycle (a : α) : Prop := ∃ b, Reaches next a b ∧ OnCycle next b

/-- `b` is the first of the chain from `a` that satisfies `stop`. -/
inductive First (stop : α → Bool) : α → α → Prop
  | here {a : α} : stop a = true → First stop a a
  | next {a b c : α} : stop a = false → next a = some b → First stop b c → First stop a c

variable {next} {stop : α → Bool}

theorem First.reaches {a b : α} (h : First next stop a b) : Reaches next a b := by
  induction h with
  | here _ => exact .refl
  | next _ hnext _ ih => exact ih.head hnext

theorem First.stops {a b : α} (h : First next stop a b) : stop b = true := by
  induction h with
  | here hstop => exact hstop
  | next _ _ _ ih => exact ih

theorem not_runsIntoCycle_of_end {a : α} (hend : next a = none) : ¬RunsIntoCycle next a := by
  rintro ⟨b, hab, hb⟩
  rcases hab.cases_head with rfl | ⟨c, hnext, _⟩
  · obtain ⟨c, hnext, _⟩ := Relation.TransGen.head'_iff.mp hb
    rw [hend] at hnext
    cases hnext
  · rw [hend] at hnext
    cases hnext

/-- A chain and its rest run into the same cycles. -/
theorem runsIntoCycle_next {a b : α} (hnext : next a = some b) :
    RunsIntoCycle next a ↔ RunsIntoCycle next b := by
  constructor
  · rintro ⟨c, hac, hc⟩
    rcases hac.cases_head with rfl | ⟨d, hnext', hdc⟩
    · -- `a` itself is on the cycle, and so is `b`
      obtain ⟨d, hnext', hda⟩ := Relation.TransGen.head'_iff.mp hc
      rw [hnext] at hnext'
      cases hnext'
      exact ⟨a, hda, hc⟩
    · rw [hnext] at hnext'
      cases hnext'
      exact ⟨c, hdc, hc⟩
  · rintro ⟨c, hbc, hc⟩
    exact ⟨c, hbc.head hnext, hc⟩

theorem runsIntoCycle_of_reaches {a b : α} (hab : Reaches next a b) :
    RunsIntoCycle next a ↔ RunsIntoCycle next b := by
  induction hab with
  | refl => exact Iff.rfl
  | tail _ hnext ih => rw [ih, runsIntoCycle_next hnext]

/-! ## 2. The loop that follows a chain -/

variable (next stop) in
/-- The first of the chain that satisfies `stop`, or `none` at the end of the chain. -/
def follow : Nat → α → Option (Option α)
  | 0, _ => none
  | fuel + 1, a =>
      if stop a then some (some a)
      else
        match next a with
        | none => some none
        | some b => follow fuel b

theorem follow_stop {a : α} (fuel : Nat) (hstop : stop a = true) :
    follow next stop (fuel + 1) a = some (some a) := by
  rw [follow, if_pos hstop]

theorem follow_end {a : α} (fuel : Nat) (hstop : stop a = false) (hend : next a = none) :
    follow next stop (fuel + 1) a = some none := by
  rw [follow, if_neg (by simp [hstop]), hend]

theorem follow_next {a b : α} (fuel : Nat) (hstop : stop a = false) (hnext : next a = some b) :
    follow next stop (fuel + 1) a = follow next stop fuel b := by
  rw [follow, if_neg (by simp [hstop]), hnext]

theorem follow_succ {fuel : Nat} {a : α} {r : Option α} (h : follow next stop fuel a = some r) :
    follow next stop (fuel + 1) a = some r := by
  induction fuel generalizing a with
  | zero => cases h
  | succ fuel ih =>
      cases hstop : stop a with
      | true =>
          rw [follow_stop _ hstop] at h ⊢
          exact h
      | false =>
          cases hnext : next a with
          | none =>
              rw [follow_end _ hstop hnext] at h ⊢
              exact h
          | some b =>
              rw [follow_next _ hstop hnext] at h ⊢
              exact ih h

theorem follow_mono {fuel fuel' : Nat} (hle : fuel ≤ fuel') {a : α} {r : Option α}
    (h : follow next stop fuel a = some r) : follow next stop fuel' a = some r := by
  induction hle with
  | refl => exact h
  | step _ ih => exact follow_succ ih

/-- Without a result the chain has ended. -/
theorem follow_ended {fuel : Nat} {a : α} (h : follow next stop fuel a = some none) :
    ¬RunsIntoCycle next a ∧ ∀ b, Reaches next a b → stop b = false := by
  induction fuel generalizing a with
  | zero => cases h
  | succ fuel ih =>
      cases hstop : stop a with
      | true =>
          rw [follow_stop fuel hstop] at h
          cases h
      | false =>
          cases hnext : next a with
          | none =>
              refine ⟨not_runsIntoCycle_of_end hnext, fun b hab ↦ ?_⟩
              rcases hab.cases_head with rfl | ⟨c, hnext', _⟩
              · exact hstop
              · rw [hnext] at hnext'
                cases hnext'
          | some c =>
              rw [follow_next fuel hstop hnext] at h
              have ⟨hcycle, hrest⟩ := ih h
              refine ⟨by rwa [runsIntoCycle_next hnext], fun b hab ↦ ?_⟩
              rcases hab.cases_head with rfl | ⟨d, hnext', hdb⟩
              · exact hstop
              · rw [hnext] at hnext'
                cases hnext'
                exact hrest b hdb

theorem follow_first {fuel : Nat} {a b : α} (h : follow next stop fuel a = some (some b)) :
    First next stop a b := by
  induction fuel generalizing a with
  | zero => cases h
  | succ fuel ih =>
      cases hstop : stop a with
      | true =>
          rw [follow_stop fuel hstop] at h
          cases h
          exact .here hstop
      | false =>
          cases hnext : next a with
          | none =>
              rw [follow_end fuel hstop hnext] at h
              cases h
          | some c =>
              rw [follow_next fuel hstop hnext] at h
              exact .next hstop hnext (ih h)

theorem First.follows {a b : α} (h : First next stop a b) :
    ∃ fuel, follow next stop fuel a = some (some b) := by
  induction h with
  | here hstop => exact ⟨1, follow_stop 0 hstop⟩
  | next hstop hnext _ ih =>
      obtain ⟨fuel, hfuel⟩ := ih
      exact ⟨fuel + 1, by rw [follow_next fuel hstop hnext, hfuel]⟩

/-- Where some of the chain stops the loop, one of it is the first. -/
theorem First.of_reaches {a b : α} (hab : Reaches next a b) (hstop : stop b = true) :
    ∃ c, First next stop a c := by
  induction hab using Relation.ReflTransGen.head_induction_on with
  | refl => exact ⟨b, .here hstop⟩
  | @head x y hnext _ ih =>
      cases hx : stop x with
      | true => exact ⟨x, .here hx⟩
      | false =>
          obtain ⟨c, hc⟩ := ih
          exact ⟨c, .next hx hnext hc⟩

/-- A chain that runs into no cycle ends. -/
theorem follow_of_not_runsIntoCycle [Finite α] {a : α} (h : ¬RunsIntoCycle next a) :
    Terminates fun fuel ↦ follow next stop fuel a := by
  -- on the chain, what comes later is less
  let later (x y : {b // Reaches next a b}) : Prop :=
    Relation.TransGen (fun x y ↦ next x = some y) y.1 x.1
  have : IsTrans _ later := ⟨fun _ _ _ hxy hyz ↦ hyz.trans hxy⟩
  have : Std.Irrefl later := ⟨fun x hx ↦ h ⟨x.1, x.2, hx⟩⟩
  have hwf : WellFounded later := Finite.wellFounded_of_trans_of_irrefl later
  suffices hall : ∀ x : {b // Reaches next a b}, Terminates fun fuel ↦ follow next stop fuel x.1 from
    hall ⟨a, .refl⟩
  intro x
  induction x using hwf.induction with
  | _ x ih =>
      cases hstop : stop x.1 with
      | true => exact .of_some 1 (follow_stop 0 hstop)
      | false =>
          cases hnext : next x.1 with
          | none => exact .of_some 1 (follow_end 0 hstop hnext)
          | some b =>
              obtain ⟨fuel, r, hr⟩ := (ih ⟨b, x.2.tail hnext⟩ (.single hnext)).some
              exact .of_some (fuel + 1) ((follow_next fuel hstop hnext).trans hr)

/-- The loop ends iff something of the chain stops it, or the chain runs into no cycle. -/
theorem follow_terminates_iff [Finite α] {a : α} :
    Terminates (fun fuel ↦ follow next stop fuel a) ↔
      (∃ b, Reaches next a b ∧ stop b = true) ∨ ¬RunsIntoCycle next a := by
  constructor
  · rintro ⟨fuel, hfuel⟩
    induction fuel generalizing a with
    | zero => cases hfuel
    | succ fuel ih =>
        cases hstop : stop a with
        | true => exact .inl ⟨a, .refl, hstop⟩
        | false =>
            cases hnext : next a with
            | none => exact .inr (not_runsIntoCycle_of_end hnext)
            | some b =>
                change (follow next stop (fuel + 1) a).isSome = true at hfuel
                rw [follow_next fuel hstop hnext] at hfuel
                rw [runsIntoCycle_next hnext]
                exact (ih hfuel).imp_left fun ⟨c, hbc, hc⟩ ↦ ⟨c, hbc.head hnext, hc⟩
  · rintro (⟨b, hab, hb⟩ | h)
    · obtain ⟨c, hc⟩ := First.of_reaches hab hb
      obtain ⟨fuel, hfuel⟩ := hc.follows
      exact .of_some fuel hfuel
    · exact follow_of_not_runsIntoCycle h

/-! ## 3. The loop that remembers what it has seen -/

variable [DecidableEq α]

variable (next) in
/-- Whether the chain comes back to something seen before. -/
def revisits : Nat → List α → α → Option Bool
  | 0, _, _ => none
  | fuel + 1, seen, a =>
      if a ∈ seen then some true
      else
        match next a with
        | none => some false
        | some b => revisits fuel (a :: seen) b

/-- What was seen leads to where the loop is. -/
def LeadTo (next : α → Option α) (seen : List α) (a : α) : Prop :=
  ∀ x ∈ seen, Relation.TransGen (fun x y ↦ next x = some y) x a

omit [DecidableEq α] in
theorem LeadTo.tail {seen : List α} {a b : α} (h : LeadTo next seen a) (hnext : next a = some b) :
    LeadTo next (a :: seen) b := by
  intro x hx
  rcases List.mem_cons.mp hx with rfl | hx
  · exact .single hnext
  · exact (h x hx).tail hnext

theorem revisits_iff {fuel : Nat} {seen : List α} {a : α} {r : Bool} (hseen : LeadTo next seen a)
    (h : revisits next fuel seen a = some r) : r = true ↔ RunsIntoCycle next a := by
  induction fuel generalizing seen a with
  | zero => cases h
  | succ fuel ih =>
      rw [revisits] at h
      by_cases hmem : a ∈ seen
      · rw [if_pos hmem] at h
        cases h
        exact iff_of_true rfl ⟨a, .refl, hseen a hmem⟩
      · rw [if_neg hmem] at h
        cases hnext : next a with
        | none =>
            rw [hnext] at h
            cases h
            exact iff_of_false Bool.false_ne_true (not_runsIntoCycle_of_end hnext)
        | some b =>
            rw [hnext] at h
            rw [runsIntoCycle_next hnext]
            exact ih (hseen.tail hnext) h

/-- Only so many different things can be seen. -/
theorem revisits_terminates [Fintype α] {seen : List α} (hnodup : seen.Nodup) (a : α) :
    Terminates fun fuel ↦ revisits next fuel seen a := by
  induction hleft : Fintype.card α - seen.length generalizing seen a with
  | zero =>
      -- everything has been seen
      have hmem : a ∈ seen := by
        by_contra hmem
        have hlength := (List.nodup_cons.mpr ⟨hmem, hnodup⟩).length_le_card
        rw [List.length_cons] at hlength
        omega
      exact .of_some 1 (if_pos hmem)
  | succ left ih =>
      by_cases hmem : a ∈ seen
      · exact .of_some 1 (if_pos hmem)
      · cases hnext : next a with
        | none =>
            apply Terminates.of_some 1
            rw [revisits, if_neg hmem, hnext]
        | some b =>
            have hrest := ih (List.nodup_cons.mpr ⟨hmem, hnodup⟩) b (by rw [List.length_cons]; omega)
            obtain ⟨fuel, r, hr⟩ := hrest.some
            apply Terminates.of_some (fuel + 1)
            rw [revisits, if_neg hmem, hnext]
            exact hr

end Chains

end Reasoning
