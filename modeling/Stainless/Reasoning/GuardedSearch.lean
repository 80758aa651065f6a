import Stainless.Reasoning.Chains

/-!
# Recursions guarded by their path

A recursion asks of all parts of a node whether they hold, takes what is already on its path for true
and stops at the first part that does not hold.  Over a graph without a bound it may run forever:
exactly along a chain of ever new nodes.
-/

namespace Reasoning

/-! ## 1. The recursion -/

structure PathSearch (N : Type) where
  /-- What a node itself demands. -/
  holds : N → Bool
  /-- The nodes that the guard remembers. -/
  guarded : N → Bool
  children : N → List N

namespace PathSearch

variable {N : Type} [DecidableEq N] (g : PathSearch N)

/-- The path below `i`. -/
def extend (i : N) (path : List N) : List N := if g.guarded i then i :: path else path

def search : Nat → N → List N → Option Bool
  | 0, _, _ => none
  | fuel + 1, i, path =>
      if g.guarded i ∧ i ∈ path then some true
      else if g.holds i then (g.children i).allM fun j ↦ search fuel j (g.extend i path)
      else some false

variable {g}

theorem search_guarded {i : N} {path : List N} (fuel : Nat) (h : g.guarded i ∧ i ∈ path) :
    g.search (fuel + 1) i path = some true := by
  rw [search, if_pos h]

theorem search_refused {i : N} {path : List N} (fuel : Nat) (hfresh : ¬(g.guarded i ∧ i ∈ path))
    (hholds : g.holds i = false) : g.search (fuel + 1) i path = some false := by
  rw [search, if_neg hfresh, if_neg (by simp [hholds])]

theorem search_children {i : N} {path : List N} (fuel : Nat)
    (hfresh : ¬(g.guarded i ∧ i ∈ path)) (hholds : g.holds i = true) :
    g.search (fuel + 1) i path =
      (g.children i).allM fun j ↦ g.search fuel j (g.extend i path) := by
  rw [search, if_neg hfresh, if_pos hholds]

end PathSearch

/-! ## 2. All of a list -/

section All

variable {α : Type} {f : α → Option Bool} {l : List α}

theorem allM_cons_true {a : α} (h : f a = some true) : (a :: l).allM f = l.allM f := by
  rw [List.allM, h]
  rfl

theorem allM_cons_false {a : α} (h : f a = some false) : (a :: l).allM f = some false := by
  rw [List.allM, h]
  rfl

theorem allM_cons_none {a : α} (h : f a = none) : (a :: l).allM f = none := by
  rw [List.allM, h]
  rfl

theorem allM_true (h : l.allM f = some true) : ∀ a ∈ l, f a = some true := by
  induction l with
  | nil => exact fun a ha ↦ absurd ha List.not_mem_nil
  | cons a l ih =>
      cases hfa : f a with
      | none =>
          rw [allM_cons_none hfa] at h
          cases h
      | some b =>
          cases b with
          | false =>
              rw [allM_cons_false hfa] at h
              cases h
          | true =>
              rw [allM_cons_true hfa] at h
              intro b hb
              rcases List.mem_cons.mp hb with rfl | hb
              · exact hfa
              · exact ih h b hb

theorem allM_false (h : l.allM f = some false) : ∃ a ∈ l, f a = some false := by
  induction l with
  | nil => cases h
  | cons a l ih =>
      cases hfa : f a with
      | none =>
          rw [allM_cons_none hfa] at h
          cases h
      | some b =>
          cases b with
          | false => exact ⟨a, List.mem_cons_self, hfa⟩
          | true =>
              rw [allM_cons_true hfa] at h
              obtain ⟨b, hb, hfb⟩ := ih h
              exact ⟨b, List.mem_cons_of_mem _ hb, hfb⟩

/-- A part that gives nothing, before any that fails. -/
theorem allM_none {before after : List α} {a : α} (hbefore : ∀ b ∈ before, f b ≠ some false)
    (ha : f a = none) : (before ++ a :: after).allM f = none := by
  induction before with
  | nil => exact allM_cons_none ha
  | cons b before ih =>
      have hrest := ih fun c hc ↦ hbefore c (List.mem_cons_of_mem _ hc)
      have hb := hbefore b List.mem_cons_self
      rw [List.cons_append]
      cases hfb : f b with
      | none => exact allM_cons_none hfb
      | some r =>
          cases r with
          | false => exact absurd hfb hb
          | true => rw [allM_cons_true hfb, hrest]

theorem allM_mono {f' : α → Option Bool} {r : Bool} (himp : ∀ a r, f a = some r → f' a = some r)
    (h : l.allM f = some r) : l.allM f' = some r := by
  induction l with
  | nil => exact h
  | cons a l ih =>
      cases hfa : f a with
      | none =>
          rw [allM_cons_none hfa] at h
          cases h
      | some b =>
          have hfa' := himp a b hfa
          cases b with
          | false =>
              rw [allM_cons_false hfa] at h
              rw [allM_cons_false hfa', h]
          | true =>
              rw [allM_cons_true hfa] at h
              rw [allM_cons_true hfa', ih h]

end All

namespace PathSearch

variable {N : Type} [DecidableEq N] {g : PathSearch N}

theorem search_succ {fuel : Nat} {i : N} {path : List N} {r : Bool}
    (h : g.search fuel i path = some r) : g.search (fuel + 1) i path = some r := by
  induction fuel generalizing i path r with
  | zero => cases h
  | succ fuel ih =>
      by_cases hguard : g.guarded i ∧ i ∈ path
      · rw [search_guarded _ hguard] at h ⊢
        exact h
      · cases hholds : g.holds i with
        | false =>
            rw [search_refused _ hguard hholds] at h ⊢
            exact h
        | true =>
            rw [search_children _ hguard hholds] at h ⊢
            exact allM_mono (fun _ _ ↦ ih) h

theorem search_mono {fuel fuel' : Nat} (hle : fuel ≤ fuel') {i : N} {path : List N} {r : Bool}
    (h : g.search fuel i path = some r) : g.search fuel' i path = some r := by
  induction hle with
  | refl => exact h
  | step _ ih => exact search_succ ih

/-! ## 3. What the answer says -/

variable (g) in
/-- From `i` a node that does not hold can be reached around the nodes of the path. -/
inductive Refused (path : List N) : N → Prop
  | here {i : N} : ¬(g.guarded i ∧ i ∈ path) → g.holds i = false → Refused path i
  | child {i j : N} : ¬(g.guarded i ∧ i ∈ path) → g.holds i = true → j ∈ g.children i →
      Refused path j → Refused path i

omit [DecidableEq N] in
theorem Refused.fresh {path : List N} {i : N} (h : g.Refused path i) :
    ¬(g.guarded i ∧ i ∈ path) := by
  cases h with
  | here hfresh _ => exact hfresh
  | child hfresh _ _ _ => exact hfresh

omit [DecidableEq N] in
theorem Refused.shorter {path path' : List N} (hsub : path ⊆ path') {i : N}
    (h : g.Refused path' i) : g.Refused path i := by
  have hweaker : ∀ j, ¬(g.guarded j ∧ j ∈ path') → ¬(g.guarded j ∧ j ∈ path) :=
    fun j hj ⟨hguarded, hmem⟩ ↦ hj ⟨hguarded, hsub hmem⟩
  induction h with
  | here hfresh hholds => exact .here (hweaker _ hfresh) hholds
  | child hfresh hholds hmem _ ih => exact .child (hweaker _ hfresh) hholds hmem ih

omit [DecidableEq N] in
theorem subset_extend (i : N) (path : List N) : path ⊆ g.extend i path := by
  rw [extend]
  split
  · exact List.subset_cons_self i path
  · exact List.Subset.refl path

/-- A way to a node that does not hold need not come back to `i`. -/
theorem Refused.around {path : List N} {i k : N} (h : g.Refused path k) (hholds : g.holds i = true) :
    (∃ j ∈ g.children i, g.Refused (i :: path) j) ∨ g.Refused (i :: path) k := by
  have hfresh' : ∀ k, k ≠ i → ¬(g.guarded k ∧ k ∈ path) → ¬(g.guarded k ∧ k ∈ i :: path) := by
    rintro k hne hfresh ⟨hguarded, hmem⟩
    exact hfresh ⟨hguarded, (List.mem_cons.mp hmem).resolve_left hne⟩
  induction h with
  | @here k hfresh hrefused =>
      by_cases heq : k = i
      · rw [heq, hholds] at hrefused
        cases hrefused
      · exact .inr (.here (hfresh' k heq hfresh) hrefused)
  | @child k j hfresh hk hmem _ ih =>
      rcases ih with hleft | hj
      · exact .inl hleft
      · by_cases heq : k = i
        · exact .inl ⟨j, heq ▸ hmem, hj⟩
        · exact .inr (.child (hfresh' k heq hfresh) hk hmem hj)

theorem Refused.part {path : List N} {i : N} (h : g.Refused path i) (hholds : g.holds i = true) :
    ∃ j ∈ g.children i, g.Refused (g.extend i path) j := by
  rw [extend]
  by_cases hguarded : g.guarded i = true
  · rw [if_pos hguarded]
    rcases h.around hholds with hpart | hi
    · exact hpart
    · exact absurd ⟨hguarded, List.mem_cons_self⟩ hi.fresh
  · rw [if_neg hguarded]
    cases h with
    | here _ hrefused =>
        rw [hholds] at hrefused
        cases hrefused
    | child _ _ hmem hj => exact ⟨_, hmem, hj⟩

theorem search_false {fuel : Nat} {i : N} {path : List N} (h : g.search fuel i path = some false) :
    g.Refused path i := by
  induction fuel generalizing i path with
  | zero => cases h
  | succ fuel ih =>
      by_cases hguard : g.guarded i ∧ i ∈ path
      · rw [search_guarded _ hguard] at h
        cases h
      · cases hholds : g.holds i with
        | false => exact .here hguard hholds
        | true =>
            rw [search_children _ hguard hholds] at h
            obtain ⟨j, hmem, hj⟩ := allM_false h
            exact .child hguard hholds hmem ((ih hj).shorter (subset_extend i path))

theorem search_true {fuel : Nat} {i : N} {path : List N} (h : g.search fuel i path = some true) :
    ¬g.Refused path i := by
  induction fuel generalizing i path with
  | zero => cases h
  | succ fuel ih =>
      intro hrefused
      have hguard := hrefused.fresh
      cases hholds : g.holds i with
      | false =>
          rw [search_refused _ hguard hholds] at h
          cases h
      | true =>
          rw [search_children _ hguard hholds] at h
          obtain ⟨j, hmem, hj⟩ := hrefused.part hholds
          exact ih (allM_true h j hmem) hj

/-! ## 4. When the recursion ends -/

variable (g) in
/-- The recursion at `i` can come to its part `j`: no earlier part leads to its end. -/
structure Enters (path : List N) (i j : N) : Prop where
  fresh : ¬(g.guarded i ∧ i ∈ path)
  holds : g.holds i = true
  part : ∃ before after, g.children i = before ++ j :: after ∧
    ∀ k ∈ before, ¬g.Refused (g.extend i path) k

variable (g) in
/-- An endless chain of nodes, each entered from the one before and none met again on the path. -/
def Runaway (i : N) (path : List N) : Prop :=
  ∃ chain : Nat → N × List N, chain 0 = (i, path) ∧
    ∀ k, g.Enters (chain k).2 (chain k).1 (chain (k + 1)).1 ∧
      (chain (k + 1)).2 = g.extend (chain k).1 (chain k).2

theorem Runaway.search_none {i : N} {path : List N} (h : g.Runaway i path) (fuel : Nat) :
    g.search fuel i path = none := by
  induction fuel generalizing i path with
  | zero => rfl
  | succ fuel ih =>
      obtain ⟨chain, hstart, hchain⟩ := h
      have ⟨henters, hpath⟩ := hchain 0
      rw [hstart] at henters hpath
      obtain ⟨before, after, hchildren, hbefore⟩ := henters.part
      have hrest : g.Runaway (chain 1).1 (g.extend i path) := by
        refine ⟨fun k ↦ chain (k + 1), ?_, fun k ↦ hchain (k + 1)⟩
        rw [← hpath]
      rw [search_children _ henters.fresh henters.holds, hchildren]
      exact allM_none (fun k hk hfalse ↦ hbefore k hk (search_false hfalse)) (ih hrest)

/-- If the recursion ends at every part that it can come to, it ends. -/
theorem parts_terminate {path : List N} (parts : List N)
    (h : ∀ before j after, parts = before ++ j :: after → (∀ k ∈ before, ¬g.Refused path k) →
      Terminates fun fuel ↦ g.search fuel j path) :
    Terminates fun fuel ↦ parts.allM fun j ↦ g.search fuel j path := by
  induction parts with
  | nil => exact ⟨0, rfl⟩
  | cons j parts ih =>
      obtain ⟨fuel, r, hr⟩ := (h [] j parts rfl fun k hk ↦ absurd hk List.not_mem_nil).some
      have hj : g.search fuel j path = some r := hr
      cases r with
      | false => exact .of_some fuel (allM_cons_false hj)
      | true =>
          have hparts : Terminates fun fuel ↦ parts.allM fun j ↦ g.search fuel j path := by
            apply ih
            intro before k after hsplit hbefore
            apply h (j :: before) k after (by rw [hsplit]; rfl)
            intro k' hk'
            rcases List.mem_cons.mp hk' with rfl | hk'
            · exact search_true hj
            · exact hbefore k' hk'
          obtain ⟨fuel', r', hr'⟩ := hparts.some
          have hmore : parts.allM (fun k ↦ g.search (max fuel fuel') k path) = some r' :=
            allM_mono (fun k r h ↦ search_mono (Nat.le_max_right fuel fuel') h) hr'
          exact .of_some (max fuel fuel')
            ((allM_cons_true (f := fun k ↦ g.search (max fuel fuel') k path)
              (search_mono (Nat.le_max_left fuel fuel') hj)).trans hmore)

theorem enters_of_not_terminates {i : N} {path : List N}
    (h : ¬Terminates fun fuel ↦ g.search fuel i path) :
    ∃ j, g.Enters path i j ∧ ¬Terminates fun fuel ↦ g.search fuel j (g.extend i path) := by
  have hfresh : ¬(g.guarded i ∧ i ∈ path) := by
    intro hguard
    exact h (.of_some 1 (search_guarded 0 hguard))
  have hholds : g.holds i = true := by
    cases hholds : g.holds i with
    | true => rfl
    | false => exact absurd (.of_some 1 (search_refused 0 hfresh hholds)) h
  by_contra hnone
  have hparts : Terminates fun fuel ↦
      (g.children i).allM fun j ↦ g.search fuel j (g.extend i path) := by
    apply parts_terminate
    intro before j after hsplit hbefore
    by_contra hj
    exact hnone ⟨j, ⟨hfresh, hholds, before, after, hsplit, hbefore⟩, hj⟩
  obtain ⟨fuel, r, hr⟩ := hparts.some
  exact h (.of_some (fuel + 1) ((search_children fuel hfresh hholds).trans hr))

/-- The recursion ends iff there is no endless chain. -/
theorem search_terminates_iff {i : N} {path : List N} :
    Terminates (fun fuel ↦ g.search fuel i path) ↔ ¬g.Runaway i path := by
  constructor
  · rintro ⟨fuel, hfuel⟩ hrunaway
    change (g.search fuel i path).isSome = true at hfuel
    rw [hrunaway.search_none fuel] at hfuel
    cases hfuel
  · intro hrunaway
    by_contra h
    apply hrunaway
    let Endless := {p : N × List N // ¬Terminates fun fuel ↦ g.search fuel p.1 p.2}
    -- one node after the other, each with the path that leads to it
    have hnext : ∀ p : Endless, ∃ q : Endless,
        g.Enters p.1.2 p.1.1 q.1.1 ∧ q.1.2 = g.extend p.1.1 p.1.2 := by
      rintro ⟨⟨k, path'⟩, hk⟩
      obtain ⟨j, henters, hj⟩ := enters_of_not_terminates hk
      exact ⟨⟨(j, g.extend k path'), hj⟩, henters, rfl⟩
    choose next hnext using hnext
    refine ⟨fun k ↦ (next^[k] ⟨(i, path), h⟩).1, rfl, fun k ↦ ?_⟩
    have hstep := hnext (next^[k] ⟨(i, path), h⟩)
    rw [← Function.iterate_succ_apply' next] at hstep
    exact hstep

end PathSearch

end Reasoning
