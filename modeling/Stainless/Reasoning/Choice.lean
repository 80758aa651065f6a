import Mathlib.Data.List.Basic

/-!
# Choosing one of several candidates

A choice takes the candidates that fit exactly, or where there is none those that fit loosely, and
succeeds where one is left.
-/

namespace Reasoning

variable {α : Type}

/-- The only element of a list. -/
def sole : List α → Option α
  | [a] => some a
  | _ => none

/-- The candidates that fit exactly, or where there is none those that fit loosely. -/
def shortlist (exact loose : α → Bool) (candidates : List α) : List α :=
  if (candidates.filter exact).isEmpty then candidates.filter loose else candidates.filter exact

theorem sole_eq_some {l : List α} {a : α} : sole l = some a ↔ l = [a] := by
  match l with
  | [] => simp [sole]
  | [b] => simp [sole]
  | b :: c :: l => simp [sole]

theorem sole_none_iff {l : List α} : sole l = none ↔ l.length ≠ 1 := by
  match l with
  | [] => simp [sole]
  | [b] => simp [sole]
  | b :: c :: l => simp [sole]

variable {exact loose : α → Bool} {candidates : List α} {a : α}

theorem shortlist_congr {exact' loose' : α → Bool} (hexact : ∀ a ∈ candidates, exact a = exact' a)
    (hloose : ∀ a ∈ candidates, loose a = loose' a) :
    shortlist exact loose candidates = shortlist exact' loose' candidates := by
  rw [shortlist, shortlist, List.filter_congr hexact, List.filter_congr hloose]

theorem shortlist_of_none (h : ∀ a ∈ candidates, exact a = false) :
    shortlist exact loose candidates = candidates.filter loose := by
  have hempty : candidates.filter exact = [] := by
    rw [List.filter_eq_nil_iff]
    intro a ha
    rw [h a ha]
    exact Bool.false_ne_true
  rw [shortlist, hempty]
  rfl

/-- Where one candidate fits exactly, the others play no part. -/
theorem shortlist_of_exact (hnodup : candidates.Nodup) (hmem : a ∈ candidates) (ha : exact a = true)
    (hunique : ∀ b ∈ candidates, exact b = true → b = a) :
    shortlist exact loose candidates = [a] := by
  have hmem' : a ∈ candidates.filter exact := List.mem_filter.mpr ⟨hmem, ha⟩
  have hfilter : candidates.filter exact = [a] := by
    have hall : ∀ b ∈ candidates.filter exact, b = a := by
      intro b hb
      rw [List.mem_filter] at hb
      exact hunique b hb.1 hb.2
    match hlist : candidates.filter exact with
    | [] =>
        rw [hlist] at hmem'
        exact absurd hmem' List.not_mem_nil
    | [b] =>
        rw [hall b (by rw [hlist]; exact List.mem_singleton_self b)]
    | b :: c :: l =>
        -- a list without repetition holds `a` once
        have hb : b = a := hall b (by rw [hlist]; exact List.mem_cons_self)
        have hc : c = a := hall c (by rw [hlist]; exact List.mem_cons_of_mem _ List.mem_cons_self)
        have hsub : (b :: c :: l).Nodup := hlist ▸ hnodup.filter exact
        rw [hb, hc] at hsub
        exact absurd List.mem_cons_self (List.nodup_cons.mp hsub).1
  rw [shortlist, hfilter]
  rfl

theorem sole_shortlist_single : sole (shortlist exact loose [a]) = some a ↔
    (exact a = true ∨ loose a = true) := by
  cases hexact : exact a with
  | true =>
      have hlist : shortlist exact loose [a] = [a] :=
        shortlist_of_exact (List.nodup_cons.mpr ⟨List.not_mem_nil, List.nodup_nil⟩) List.mem_cons_self hexact
          fun b hb _ ↦ List.mem_singleton.mp hb
      rw [hlist]
      simp [sole]
  | false =>
      rw [shortlist_of_none (by simpa using hexact)]
      cases hloose : loose a with
      | true => simp [hloose, sole]
      | false => simp [hloose, sole]

theorem mem_of_sole_shortlist (h : sole (shortlist exact loose candidates) = some a) :
    a ∈ candidates := by
  have hlist := sole_eq_some.mp h
  have hmem : a ∈ shortlist exact loose candidates := by
    rw [hlist]
    exact List.mem_singleton_self a
  rw [shortlist] at hmem
  split at hmem
  · exact List.mem_of_mem_filter hmem
  · exact List.mem_of_mem_filter hmem

end Reasoning
