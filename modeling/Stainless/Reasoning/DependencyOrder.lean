import Stainless.Reasoning.Graphs

/-!
# Lists in dependency order

Lists in which every element stands behind all that it depends on, and lists without repetitions.
-/

open Relation

namespace Reasoning

variable {α : Type}

/-! ## 1. Dependencies first -/

/-- Whatever an element depends on stands before it. -/
def DependencyFirst (r : α → α → Prop) (l : List α) : Prop :=
  ∀ before a after, l = before ++ a :: after → ∀ b, r a b → b ∈ before

variable {r : α → α → Prop} {l : List α} {a b : α}

theorem DependencyFirst.nil : DependencyFirst r [] := by
  intro before a after h
  cases before <;> cases h

theorem DependencyFirst.concat (h : DependencyFirst r l) (ha : ∀ b, r a b → b ∈ l) :
    DependencyFirst r (l ++ [a]) := by
  intro before c after heq b hb
  cases List.eq_nil_or_concat after with
  | inl hnil =>
      rw [hnil] at heq
      have ⟨hfront, hlast⟩ := List.append_inj' heq rfl
      rw [← hfront]
      exact ha b (List.singleton_inj.mp hlast ▸ hb)
  | inr hconcat =>
      have ⟨init, last, hafter⟩ := hconcat
      rw [hafter, List.concat_eq_append, ← List.cons_append, ← List.append_assoc] at heq
      exact h before c init (List.append_inj' heq rfl).1 b hb

/-- Also what it depends on through others. -/
theorem DependencyFirst.before (h : DependencyFirst r l) {before after : List α}
    (heq : l = before ++ a :: after) (hpath : TransGen r a b) : b ∈ before := by
  induction hpath with
  | single hab => exact h before a after heq _ hab
  | tail _ hbc ih =>
      have ⟨front, back, hsplit⟩ := List.append_of_mem ih
      have hmem := h front _ (back ++ a :: after) (by rw [heq, hsplit]; simp) _ hbc
      rw [hsplit]
      exact List.mem_append_left _ hmem

theorem DependencyFirst.closed (h : DependencyFirst r l) (ha : a ∈ l) (hpath : ReflTransGen r a b) :
    b ∈ l := by
  cases reflTransGen_iff_eq_or_transGen.mp hpath with
  | inl heq => rwa [heq]
  | inr hpath =>
      have ⟨before, after, hsplit⟩ := List.append_of_mem ha
      rw [hsplit]
      exact List.mem_append_left _ (h.before hsplit hpath)

theorem DependencyFirst.acyclic (h : DependencyFirst r l) (hnodup : l.Nodup) (ha : a ∈ l) :
    ¬TransGen r a a := by
  intro hcycle
  have ⟨before, after, hsplit⟩ := List.append_of_mem ha
  have hbefore := h.before hsplit hcycle
  rw [hsplit] at hnodup
  exact List.disjoint_of_nodup_append hnodup hbefore List.mem_cons_self

/-! ## 2. First occurrences -/

variable [DecidableEq α]

theorem eraseDups_concat (l : List α) (a : α) :
    (l ++ [a]).eraseDups = if a ∈ l then l.eraseDups else l.eraseDups ++ [a] := by
  rw [List.eraseDups_append]
  by_cases ha : a ∈ l
  · rw [if_pos ha]
    simp [List.removeAll, ha]
  · rw [if_neg ha]
    simp [List.removeAll, ha, List.eraseDups_cons]

theorem eraseDups_nodup (l : List α) : l.eraseDups.Nodup := by
  induction l using List.reverseRecOn with
  | nil => simp
  | append_singleton l a ih =>
      rw [eraseDups_concat]
      by_cases ha : a ∈ l
      · rwa [if_pos ha]
      · rw [if_neg ha, List.nodup_append]
        refine ⟨ih, List.nodup_singleton a, fun b hb c hc ↦ ?_⟩
        rw [List.mem_singleton.mp hc]
        exact fun heq ↦ ha (heq ▸ List.mem_eraseDups.mp hb)

/-- What occurs in a first part stands before what does not. -/
theorem idxOf_eraseDups_lt {l₁ l₂ : List α} (ha : a ∈ l₁) (hb : b ∉ l₁) :
    (l₁ ++ l₂).eraseDups.idxOf a < (l₁ ++ l₂).eraseDups.idxOf b := by
  have ha' : a ∈ l₁.eraseDups := List.mem_eraseDups.mpr ha
  have hb' : b ∉ l₁.eraseDups := fun h ↦ hb (List.mem_eraseDups.mp h)
  rw [List.eraseDups_append, List.idxOf_append_of_mem ha', List.idxOf_append_of_notMem hb']
  have := List.idxOf_lt_length_of_mem ha'
  omega

end Reasoning
