import Std.Data.ExtTreeMap
import Mathlib.Order.Basic

/-!
# Ordered maps

`rust::Map` is Rust's `BTreeMap`: an ordered map with range reads.  It is modelled by
`Std.ExtTreeMap`, whose equality is equality of the stored associations.  The range reads below are
those of the runtime; each takes the ends of an interval and does nothing when they are reversed.
-/

namespace Stainless.Runtime

open Std

abbrev OrderedMap (α β : Type) [Ord α] := ExtTreeMap α β compare

namespace OrderedMap

variable {α β : Type} [Ord α] [TransOrd α]

theorem getElem?_insert [LawfulEqOrd α] [DecidableEq α] (m : OrderedMap α β) (k k' : α) (v : β) :
    (m.insert k v)[k']? = if k = k' then some v else m[k']? := by
  rw [ExtTreeMap.getElem?_insert]
  simp only [LawfulEqOrd.compare_eq_iff_eq]

theorem getElem?_erase [LawfulEqOrd α] [DecidableEq α] (m : OrderedMap α β) (k k' : α) :
    (m.erase k)[k']? = if k = k' then none else m[k']? := by
  rw [ExtTreeMap.getElem?_erase]
  simp only [LawfulEqOrd.compare_eq_iff_eq]

theorem mem_insert [LawfulEqOrd α] (m : OrderedMap α β) (k k' : α) (v : β) :
    k' ∈ m.insert k v ↔ k' = k ∨ k' ∈ m := by
  rw [ExtTreeMap.mem_insert, LawfulEqOrd.compare_eq_iff_eq, eq_comm]

theorem mem_erase [LawfulEqOrd α] (m : OrderedMap α β) (k k' : α) :
    k' ∈ m.erase k ↔ k' ≠ k ∧ k' ∈ m := by
  rw [ExtTreeMap.mem_erase, Ne, LawfulEqOrd.compare_eq_iff_eq, eq_comm]

theorem erase_insert [LawfulEqOrd α] [DecidableEq α] (m : OrderedMap α β) (k : α) (v : β) :
    (m.insert k v).erase k = m.erase k := by
  apply ExtTreeMap.ext_getElem?
  intro k'
  rw [getElem?_erase, getElem?_erase, getElem?_insert]
  by_cases hk : k = k'
  · rw [if_pos hk, if_pos hk]
  · rw [if_neg hk, if_neg hk, if_neg hk]

private theorem foldl_erase_cases [LawfulEqOrd α] [DecidableEq α] (keys : List α)
    (m : OrderedMap α β) (k : α) :
    (k ∈ keys → (keys.foldl (fun m k ↦ m.erase k) m)[k]? = none) ∧
      (k ∉ keys → (keys.foldl (fun m k ↦ m.erase k) m)[k]? = m[k]?) := by
  induction keys generalizing m with
  | nil => simp
  | cons k' keys ih =>
      obtain ⟨hin, hout⟩ := ih (m.erase k')
      rw [List.foldl_cons, List.mem_cons, not_or]
      rw [getElem?_erase] at hout
      refine ⟨fun hk ↦ ?_, fun hk ↦ ?_⟩
      · by_cases hk' : k ∈ keys
        · exact hin hk'
        · rw [hout hk', if_pos (hk.resolve_right hk').symm]
      · rw [hout hk.2, if_neg (Ne.symm hk.1)]

/-- Erasing a list of keys. -/
theorem getElem?_foldl_erase [LawfulEqOrd α] [DecidableEq α] (keys : List α) (m : OrderedMap α β)
    (k : α) [Decidable (k ∈ keys)] :
    (keys.foldl (fun m k ↦ m.erase k) m)[k]? = if k ∈ keys then none else m[k]? := by
  by_cases hk : k ∈ keys
  · rw [if_pos hk, (foldl_erase_cases keys m k).1 hk]
  · rw [if_neg hk, (foldl_erase_cases keys m k).2 hk]

/-- Inserting a list of associations leaves the other keys alone. -/
theorem getElem?_insertMany_of_not_mem [LawfulEqOrd α] [DecidableEq α] (m : OrderedMap α β)
    {entries : List (α × β)} {k : α} (h : k ∉ entries.map Prod.fst) :
    (m.insertMany entries)[k]? = m[k]? := by
  apply ExtTreeMap.getElem?_insertMany_list_of_contains_eq_false
  simpa using h

theorem getElem?_insertMany_of_mem [LawfulEqOrd α] [DecidableEq α] (m : OrderedMap α β)
    {entries : List (α × β)} (hkeys : (entries.map Prod.fst).Nodup) {e : α × β} (he : e ∈ entries) :
    (m.insertMany entries)[e.1]? = some e.2 := by
  apply ExtTreeMap.getElem?_insertMany_list_of_mem (ReflCmp.compare_self) _ he
  apply (List.pairwise_map.mp hkeys).imp
  intro a b hne heq
  exact hne (LawfulEqOrd.compare_eq_iff_eq.mp heq)

/-- With one association for each key, their order does not matter. -/
theorem insertMany_perm [LawfulEqOrd α] [DecidableEq α] (m : OrderedMap α β)
    {entries entries' : List (α × β)} (hperm : entries.Perm entries')
    (hkeys : (entries.map Prod.fst).Nodup) : m.insertMany entries = m.insertMany entries' := by
  have hkeys' := (hperm.map Prod.fst).nodup_iff.mp hkeys
  apply ExtTreeMap.ext_getElem?
  intro k
  by_cases hk : k ∈ entries.map Prod.fst
  · have ⟨e, he, hek⟩ := List.mem_map.mp hk
    rw [← hek, getElem?_insertMany_of_mem m hkeys he,
      getElem?_insertMany_of_mem m hkeys' (hperm.mem_iff.mp he)]
  · have hk' : k ∉ entries'.map Prod.fst := fun h ↦ hk ((hperm.map Prod.fst).mem_iff.mpr h)
    rw [getElem?_insertMany_of_not_mem m hk, getElem?_insertMany_of_not_mem m hk']

/-- The associations between two keys, both ends included, in ascending order. -/
def withRange (m : OrderedMap α β) (lower upper : α) : List (α × β) :=
  if (compare lower upper).isGT then []
  else m.toList.filter fun e ↦ (compare lower e.1).isLE && (compare e.1 upper).isLE

def withLastInRange (m : OrderedMap α β) (lower upper : α) : Option (α × β) :=
  (m.withRange lower upper).getLast?

def withFirstInRange (m : OrderedMap α β) (lower upper : α) : Option (α × β) :=
  (m.withRange lower upper).head?

/-- The greatest association at or above `lower` and strictly below `upper`. -/
def withLastBefore (m : OrderedMap α β) (lower upper : α) : Option (α × β) :=
  if (compare lower upper).isGE then none
  else (m.toList.filter fun e ↦
    (compare lower e.1).isLE && (compare e.1 upper).isLT).getLast?

/-- The least association strictly above `lower` and at or below `upper`. -/
def withFirstAfter (m : OrderedMap α β) (lower upper : α) : Option (α × β) :=
  if (compare lower upper).isGE then none
  else (m.toList.filter fun e ↦
    (compare lower e.1).isLT && (compare e.1 upper).isLE).head?

/-- The values in the order of their keys. -/
def values (m : OrderedMap α β) : List β := m.toList.map Prod.snd

/-! ## What the range reads find -/

theorem mem_toList_iff [LawfulEqOrd α] (m : OrderedMap α β) (e : α × β) :
    e ∈ m.toList ↔ m[e.1]? = some e.2 :=
  ExtTreeMap.mem_toList_iff_getElem?_eq_some

theorem mem_values [LawfulEqOrd α] (m : OrderedMap α β) (v : β) :
    v ∈ m.values ↔ ∃ k : α, m[k]? = some v := by
  rw [values, List.mem_map]
  constructor
  · intro h
    have ⟨e, he, hv⟩ := h
    exact ⟨e.1, hv ▸ (mem_toList_iff m e).mp he⟩
  · intro h
    have ⟨k, hk⟩ := h
    exact ⟨(k, v), (mem_toList_iff m (k, v)).mpr hk, rfl⟩

theorem toList_sorted (m : OrderedMap α β) :
    m.toList.Pairwise fun a b ↦ compare a.1 b.1 = .lt :=
  ExtTreeMap.ordered_keys_toList

/-- The first association that satisfies `p` is the least one. -/
theorem head?_filter_eq_some [LawfulEqOrd α] {m : OrderedMap α β} {p : α × β → Bool} {e : α × β}
    (h : (m.toList.filter p).head? = some e) :
    m[e.1]? = some e.2 ∧ p e = true ∧
      ∀ e' : α × β, m[e'.1]? = some e'.2 → p e' = true → (compare e.1 e'.1).isLE := by
  have hmem := List.mem_of_head? h
  rw [List.mem_filter, mem_toList_iff] at hmem
  refine ⟨hmem.1, hmem.2, fun e' he' hp ↦ ?_⟩
  have hmem' : e' ∈ m.toList.filter p := List.mem_filter.mpr ⟨(mem_toList_iff m e').mpr he', hp⟩
  have hsorted := (toList_sorted m).filter p
  obtain ⟨rest, hrest⟩ : ∃ rest, m.toList.filter p = e :: rest := by
    cases hl : m.toList.filter p with
    | nil => rw [hl] at h; cases h
    | cons a rest =>
        rw [hl, List.head?_cons, Option.some.injEq] at h
        exact ⟨rest, by rw [h]⟩
  rw [hrest] at hmem' hsorted
  rcases List.mem_cons.mp hmem' with rfl | hin
  · rw [ReflOrd.compare_self]
    rfl
  · rw [(List.pairwise_cons.mp hsorted).1 e' hin]
    rfl

/-- The last association that satisfies `p` is the greatest one. -/
theorem getLast?_filter_eq_some [LawfulEqOrd α] {m : OrderedMap α β} {p : α × β → Bool}
    {e : α × β} (h : (m.toList.filter p).getLast? = some e) :
    m[e.1]? = some e.2 ∧ p e = true ∧
      ∀ e' : α × β, m[e'.1]? = some e'.2 → p e' = true → (compare e'.1 e.1).isLE := by
  have hmem := List.mem_of_getLast? h
  rw [List.mem_filter, mem_toList_iff] at hmem
  refine ⟨hmem.1, hmem.2, fun e' he' hp ↦ ?_⟩
  have hmem' : e' ∈ m.toList.filter p := List.mem_filter.mpr ⟨(mem_toList_iff m e').mpr he', hp⟩
  have hsorted := (toList_sorted m).filter p
  obtain ⟨front, hfront⟩ := List.getLast?_eq_some_iff.mp h
  rw [hfront] at hmem' hsorted
  rcases List.mem_append.mp hmem' with hin | hin
  · rw [(List.pairwise_append.mp hsorted).2.2 e' hin e (List.mem_singleton.mpr rfl)]
    rfl
  · rw [List.mem_singleton.mp hin, ReflOrd.compare_self]
    rfl

/-- Nothing is found only when nothing satisfies `p`. -/
theorem filter_eq_nil [LawfulEqOrd α] {m : OrderedMap α β} {p : α × β → Bool}
    (h : m.toList.filter p = []) {e : α × β} (he : m[e.1]? = some e.2) : p e = false := by
  have hf := List.filter_eq_nil_iff.mp h e ((mem_toList_iff m e).mpr he)
  simpa using hf

/-- The range of an interval, whichever way round its ends are. -/
theorem withRange_eq_filter (m : OrderedMap α β) (lower upper : α) :
    m.withRange lower upper = m.toList.filter fun e ↦
      (compare lower e.1).isLE && (compare e.1 upper).isLE := by
  unfold withRange
  split
  · rename_i hgt
    symm
    rw [List.filter_eq_nil_iff]
    intro e _ hin
    rw [Bool.and_eq_true] at hin
    have hle := TransOrd.isLE_trans hin.1 hin.2
    cases hc : compare lower upper <;> simp_all
  · rfl

/-- Nothing lies strictly between two keys that are the wrong way round. -/
theorem withLastBefore_eq_filter (m : OrderedMap α β) (lower upper : α) :
    m.withLastBefore lower upper = (m.toList.filter fun e ↦
      (compare lower e.1).isLE && (compare e.1 upper).isLT).getLast? := by
  unfold withLastBefore
  split
  · rename_i hge
    symm
    rw [List.getLast?_eq_none_iff, List.filter_eq_nil_iff]
    intro e _ hin
    rw [Bool.and_eq_true, Ordering.isLT_iff_eq_lt] at hin
    rw [TransCmp.lt_of_isLE_of_lt hin.1 hin.2] at hge
    cases hge
  · rfl

theorem withFirstAfter_eq_filter (m : OrderedMap α β) (lower upper : α) :
    m.withFirstAfter lower upper = (m.toList.filter fun e ↦
      (compare lower e.1).isLT && (compare e.1 upper).isLE).head? := by
  unfold withFirstAfter
  split
  · rename_i hge
    symm
    rw [List.head?_eq_none_iff, List.filter_eq_nil_iff]
    intro e _ hin
    rw [Bool.and_eq_true, Ordering.isLT_iff_eq_lt] at hin
    rw [TransCmp.lt_of_lt_of_isLE hin.1 hin.2] at hge
    cases hge
  · rfl

/-! ## The associations around a key -/

/-- The associations in front of a key. -/
def below (m : OrderedMap α β) (k : α) : List (α × β) :=
  m.toList.filter fun e ↦ (compare e.1 k).isLT

/-- The associations behind a key. -/
def above (m : OrderedMap α β) (k : α) : List (α × β) :=
  m.toList.filter fun e ↦ (compare k e.1).isLT

theorem lt_of_mem_below {m : OrderedMap α β} {k : α} {e : α × β} (h : e ∈ m.below k) :
    compare e.1 k = .lt :=
  Ordering.isLT_iff_eq_lt.mp (List.mem_filter.mp h).2

theorem lt_of_mem_above {m : OrderedMap α β} {k : α} {e : α × β} (h : e ∈ m.above k) :
    compare k e.1 = .lt :=
  Ordering.isLT_iff_eq_lt.mp (List.mem_filter.mp h).2

/-- A list in the order of its keys is that of the map with its associations. -/
theorem toList_eq_of_sorted [LawfulEqOrd α] {m : OrderedMap α β} {entries : List (α × β)}
    (hsorted : entries.Pairwise fun a b ↦ compare a.1 b.1 = .lt)
    (hmem : ∀ e : α × β, e ∈ entries ↔ m[e.1]? = some e.2) : m.toList = entries := by
  have hnodup {l : List (α × β)} (h : l.Pairwise fun a b ↦ compare a.1 b.1 = .lt) : l.Nodup := by
    apply h.imp
    intro a b hlt hab
    rw [hab, ReflOrd.compare_self] at hlt
    cases hlt
  apply List.Perm.eq_of_pairwise _ (toList_sorted m) hsorted
  · apply (List.perm_ext_iff_of_nodup (hnodup (toList_sorted m)) (hnodup hsorted)).mpr
    intro e
    rw [mem_toList_iff, hmem]
  · intro a b _ _ hab hba
    rw [OrientedOrd.eq_swap, hba] at hab
    cases hab

/-- A map that differs from another one at a key only has the same associations around it. -/
theorem toList_around [LawfulEqOrd α] {m m' : OrderedMap α β} {k : α}
    (hother : ∀ k', k' ≠ k → m'[k']? = m[k']?) :
    m'.toList = m.below k ++ m'[k]?.toList.map (k, ·) ++ m.above k := by
  have hmiddle {e : α × β} (h : e ∈ m'[k]?.toList.map (k, ·)) : e.1 = k := by
    have ⟨v, _, hv⟩ := List.mem_map.mp h
    rw [← hv]
  apply toList_eq_of_sorted
  case hsorted =>
    apply List.pairwise_append.mpr
    refine ⟨List.pairwise_append.mpr ⟨(toList_sorted m).filter _, ?_, ?_⟩, (toList_sorted m).filter _,
      ?_⟩
    · cases m'[k]? with
      | none => exact List.Pairwise.nil
      | some v => exact List.pairwise_singleton _ _
    · intro a ha b hb
      rw [hmiddle hb]
      exact lt_of_mem_below ha
    · intro a ha b hb
      cases List.mem_append.mp ha with
      | inl hbelow => exact TransCmp.lt_trans (lt_of_mem_below hbelow) (lt_of_mem_above hb)
      | inr hhere =>
          rw [hmiddle hhere]
          exact lt_of_mem_above hb
  case hmem =>
    intro e
    rw [List.mem_append, List.mem_append, below, above, List.mem_filter, List.mem_filter,
      mem_toList_iff]
    by_cases hkey : e.1 = k
    case pos =>
      rw [hkey, ReflOrd.compare_self]
      constructor
      · intro h
        have ⟨v, hv, he⟩ := List.mem_map.mp (h.resolve_right (by simp) |>.resolve_left (by simp))
        rw [← he]
        exact Option.mem_toList.mp hv
      · intro h
        exact .inl (.inr (List.mem_map.mpr ⟨e.2, Option.mem_toList.mpr h, by rw [← hkey]⟩))
    case neg =>
      rw [hother e.1 hkey]
      constructor
      · intro h
        rcases h with (h | h) | h
        · exact h.1
        · exact absurd (hmiddle h) hkey
        · exact h.1
      · intro h
        cases hc : compare e.1 k with
        | lt => exact .inl (.inl ⟨h, by simp⟩)
        | eq => exact absurd (LawfulEqOrd.compare_eq_iff_eq.mp hc) hkey
        | gt =>
            rw [OrientedOrd.eq_swap, Ordering.swap_eq_gt] at hc
            exact .inr ⟨h, by simp [hc]⟩

theorem toList_split [LawfulEqOrd α] (m : OrderedMap α β) (k : α) :
    m.toList = m.below k ++ m[k]?.toList.map (k, ·) ++ m.above k :=
  toList_around fun _ _ ↦ rfl

theorem toList_insert [LawfulEqOrd α] [DecidableEq α] (m : OrderedMap α β) (k : α) (v : β) :
    (m.insert k v).toList = m.below k ++ [(k, v)] ++ m.above k := by
  have h : (m.insert k v).toList = m.below k ++ (m.insert k v)[k]?.toList.map (k, ·) ++ m.above k :=
    toList_around fun k' hk' ↦ by rw [getElem?_insert, if_neg (Ne.symm hk')]
  rwa [getElem?_insert, if_pos rfl] at h

theorem toList_erase [LawfulEqOrd α] [DecidableEq α] (m : OrderedMap α β) (k : α) :
    (m.erase k).toList = m.below k ++ m.above k := by
  have h : (m.erase k).toList = m.below k ++ (m.erase k)[k]?.toList.map (k, ·) ++ m.above k :=
    toList_around fun k' hk' ↦ by rw [getElem?_erase, if_neg (Ne.symm hk')]
  rw [getElem?_erase, if_pos rfl] at h
  rw [h]
  simp

/-- A map that is made of sorted associations. -/
theorem toList_insertMany_sorted [LawfulEqOrd α] [DecidableEq α] {entries : List (α × β)}
    (hsorted : entries.Pairwise fun a b ↦ compare a.1 b.1 = .lt) :
    ((∅ : OrderedMap α β).insertMany entries).toList = entries := by
  have hkeys : (entries.map Prod.fst).Nodup := by
    apply List.pairwise_map.mpr
    apply hsorted.imp
    intro a b hlt hab
    rw [hab, ReflOrd.compare_self] at hlt
    cases hlt
  apply toList_eq_of_sorted hsorted
  intro e
  constructor
  · exact getElem?_insertMany_of_mem ∅ hkeys
  · intro he
    by_cases hmem : e.1 ∈ entries.map Prod.fst
    · have ⟨e', he', hkey⟩ := List.mem_map.mp hmem
      have hvalue := getElem?_insertMany_of_mem ∅ hkeys he'
      rw [hkey, he] at hvalue
      rwa [Prod.ext hkey.symm (Option.some.inj hvalue)]
    · rw [getElem?_insertMany_of_not_mem ∅ hmem, ExtTreeMap.getElem?_empty] at he
      cases he

end OrderedMap

end Stainless.Runtime
