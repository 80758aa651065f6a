import Mathlib
import Stainless.Reasoning.Runs
import Stainless.Runtime.OrderedMap

/-!
# Ordered multimaps

`rust::MultiMap` keeps the values of each key in a list of their own, and counts them apart from the
lists.  What it shows is one sorted list of pairs.
-/

open Std Reasoning

namespace Stainless.Runtime

/-! ## 1. The multimap -/

structure MultiMap (K V : Type) [Ord K] where
  entries : OrderedMap K (List V)
  len : Nat

namespace MultiMap

section Operations

variable {K V σ : Type} [Ord K]

def new : MultiMap K V := ⟨∅, 0⟩

def keyLen (m : MultiMap K V) : Nat := m.entries.size

def clear (_ : MultiMap K V) : MultiMap K V := ⟨∅, 0⟩

/-- The pairs of some buckets. -/
def flatten (entries : List (K × List V)) : List (K × V) :=
  entries.flatMap fun entry ↦ entry.2.map (entry.1, ·)

variable [TransOrd K]

def iter (m : MultiMap K V) : List (K × V) := flatten m.entries.toList

def containsKey (m : MultiMap K V) (key : K) : Bool := m.entries.contains key

def insert (m : MultiMap K V) (key : K) (value : V) : MultiMap K V :=
  ⟨m.entries.insert key (m.entries[key]?.getD [] ++ [value]), m.len + 1⟩

/-- A callback that may change its surroundings runs on each of the values in place. -/
def updateValues (callback : σ → V → V × σ) : List V → σ → List V × σ
  | [], w => ([], w)
  | value :: values, w =>
      let result := callback w value
      let rest := updateValues callback values result.2
      (result.1 :: rest.1, rest.2)

/-- Gives the number of values too. -/
def withMut (m : MultiMap K V) (key : K) (callback : σ → V → V × σ) (w : σ) :
    (MultiMap K V × Nat) × σ :=
  match m.entries[key]? with
  | none => ((m, 0), w)
  | some values =>
      let updated := updateValues callback values w
      (({ m with entries := m.entries.insert key updated.1 }, values.length), updated.2)

/-- What a loop over `iter_mut` writes through its references. -/
def updateEntries (callback : σ → K → V → V × σ) : List (K × List V) → σ → List (K × List V) × σ
  | [], w => ([], w)
  | (key, values) :: entries, w =>
      let updated := updateValues (fun w value ↦ callback w key value) values w
      let rest := updateEntries callback entries updated.2
      ((key, updated.1) :: rest.1, rest.2)

def iterMut (m : MultiMap K V) (callback : σ → K → V → V × σ) (w : σ) : MultiMap K V × σ :=
  let updated := updateEntries callback m.entries.toList w
  ({ m with entries := (∅ : OrderedMap K (List V)).insertMany updated.1 }, updated.2)

def removeAll (m : MultiMap K V) (key : K) : MultiMap K V × Nat :=
  let removed := (m.entries[key]?.map List.length).getD 0
  (⟨m.entries.erase key, m.len - removed⟩, removed)

/-- The loop of `remove` over a bucket; gives `retained` and `removed`. -/
def removeFirst [BEq V] (value : V) : List V → Bool → List V × Bool
  | [], removed => ([], removed)
  | candidate :: values, removed =>
      if !removed && candidate == value then
        removeFirst value values true
      else
        let rest := removeFirst value values removed
        (candidate :: rest.1, rest.2)

def remove [BEq V] (m : MultiMap K V) (key : K) (value : V) : MultiMap K V × Bool :=
  match m.entries[key]? with
  | none => (m, false)
  | some values =>
      let kept := removeFirst value values false
      let entries := m.entries.insert key kept.1
      let len := if kept.2 then m.len - 1 else m.len
      (⟨if kept.1.isEmpty then entries.erase key else entries, len⟩, kept.2)

/-- The loop of `retain` over a bucket; gives `retained` and adds to `retained_len`. -/
def retainValues (predicate : σ → V → Bool × σ) : List V → Nat → σ → List V × Nat × σ
  | [], len, w => ([], len, w)
  | value :: values, len, w =>
      let result := predicate w value
      if result.1 then
        let rest := retainValues predicate values (len + 1) result.2
        (value :: rest.1, rest.2)
      else retainValues predicate values len result.2

/-- `BTreeMap::retain` visits the entries in the order of their keys. -/
def retainEntries (predicate : σ → K → V → Bool × σ) :
    List (K × List V) → Nat → σ → List (K × List V) × Nat × σ
  | [], len, w => ([], len, w)
  | (key, values) :: entries, len, w =>
      let kept := retainValues (fun w value ↦ predicate w key value) values len w
      let rest := retainEntries predicate entries kept.2.1 kept.2.2
      (if kept.1.isEmpty then rest.1 else (key, kept.1) :: rest.1, rest.2)

def retain (m : MultiMap K V) (predicate : σ → K → V → Bool × σ) (w : σ) : MultiMap K V × σ :=
  let kept := retainEntries predicate m.entries.toList 0 w
  (⟨(∅ : OrderedMap K (List V)).insertMany kept.1, kept.2.1⟩, kept.2.2)

end Operations

end MultiMap

/-! ## 2. The consuming iterator -/

structure MultiMapIntoIter (K V : Type) where
  entries : List (K × List V)
  currentKey : Option K
  currentValues : List V

namespace MultiMapIntoIter

variable {K V : Type}

/-- The loop of `next`. -/
def nextFrom : List (K × List V) → Option K → List V →
    Except String (Option ((K × V) × MultiMapIntoIter K V))
  | entries, some key, value :: values => .ok (some ((key, value), ⟨entries, some key, values⟩))
  | _, none, _ :: _ => .error "a current multimap value always has a key"
  | (key, values) :: entries, _, [] => nextFrom entries (some key) values
  | [], _, [] => .ok none

def next (it : MultiMapIntoIter K V) : Except String (Option ((K × V) × MultiMapIntoIter K V)) :=
  nextFrom it.entries it.currentKey it.currentValues

/-- The values that are still to come. -/
def size (it : MultiMapIntoIter K V) : Nat :=
  it.currentValues.length + (it.entries.map fun entry ↦ entry.2.length).sum

theorem nextFrom_size {entries : List (K × List V)} {key : Option K} {values : List V} {pair : K × V}
    {it : MultiMapIntoIter K V} (h : nextFrom entries key values = .ok (some (pair, it))) :
    it.size < size ⟨entries, key, values⟩ := by
  fun_induction nextFrom entries key values with
  | case1 entries key value values =>
      injection h with h
      injection h with h
      injection h with _ hit
      rw [← hit]
      simp [size]
  | case2 => cases h
  | case3 key values entries _ ih =>
      have hless := ih h
      simp only [size, List.map_cons, List.sum_cons, List.length_nil] at hless ⊢
      omega
  | case4 => cases h

/-- Everything the iterator yields. -/
def collect (it : MultiMapIntoIter K V) : Except String (List (K × V)) :=
  match _hnext : it.next with
  | .error message => .error message
  | .ok none => .ok []
  | .ok (some (pair, rest)) => do
      let pairs ← collect rest
      return pair :: pairs
termination_by it.size
decreasing_by exact nextFrom_size _hnext

end MultiMapIntoIter

def MultiMap.intoIter {K V : Type} [Ord K] [TransOrd K] (m : MultiMap K V) : MultiMapIntoIter K V :=
  ⟨m.entries.toList, none, []⟩

/-! ## 3. The sorted list of pairs -/

/-- Pairs in the order of their keys; those of one key are in the order in which they came. -/
abbrev PairList (K V : Type) := List (K × V)

namespace PairList

section Operations

variable {K V σ : Type} [Ord K] [DecidableEq K]

def Ordered (pairs : PairList K V) : Prop := pairs.Pairwise fun p q ↦ (compare p.1 q.1).isLE

/-- Behind all pairs with keys that are not greater. -/
def insert (pairs : PairList K V) (key : K) (value : V) : PairList K V :=
  (pairs.filter fun p ↦ (compare p.1 key).isLE) ++
    (key, value) :: pairs.filter fun p ↦ (compare key p.1).isLT

/-- The first equal pair goes. -/
def remove [BEq V] (pairs : PairList K V) (key : K) (value : V) : PairList K V :=
  pairs.eraseP fun p ↦ p.1 = key && p.2 == value

def removeAll (pairs : PairList K V) (key : K) : PairList K V := pairs.filter fun p ↦ p.1 ≠ key

def update (callback : σ → K × V → V × σ) : PairList K V → σ → PairList K V × σ
  | [], w => ([], w)
  | pair :: pairs, w =>
      let result := callback w pair
      let rest := update callback pairs result.2
      ((pair.1, result.1) :: rest.1, rest.2)

def retain (predicate : σ → K → V → Bool × σ) : PairList K V → σ → PairList K V × σ
  | [], w => ([], w)
  | pair :: pairs, w =>
      let result := predicate w pair.1 pair.2
      let rest := retain predicate pairs result.2
      (if result.1 then pair :: rest.1 else rest.1, rest.2)

end Operations

section Around

variable {K V : Type} [Ord K] [TransOrd K] [LawfulEqOrd K] {key : K} {front back : PairList K V}
  (hfront : ∀ p ∈ front, compare p.1 key = .lt) (here : List V)
  (hback : ∀ p ∈ back, compare key p.1 = .lt)

include hfront hback

theorem insert_around (value : V) :
    insert (front ++ here.map (key, ·) ++ back) key value =
      front ++ (here ++ [value]).map (key, ·) ++ back := by
  have hgt {p : K × V} (hp : p ∈ back) : compare p.1 key = .gt := by
    rw [OrientedOrd.eq_swap, hback p hp]
    rfl
  have hgt' {p : K × V} (hp : p ∈ front) : compare key p.1 = .gt := by
    rw [OrientedOrd.eq_swap, hfront p hp]
    rfl
  have hbefore : (front ++ here.map (key, ·) ++ back).filter (fun p ↦ (compare p.1 key).isLE) =
      front ++ here.map (key, ·) := by
    rw [List.filter_append, List.filter_eq_self.mpr, List.filter_eq_nil_iff.mpr, List.append_nil]
    · intro p hp
      rw [hgt hp]
      decide
    · intro p hp
      cases List.mem_append.mp hp with
      | inl hp =>
          rw [hfront p hp]
          rfl
      | inr hp =>
          have ⟨_, _, hp⟩ := List.mem_map.mp hp
          rw [← hp, ReflOrd.compare_self]
          rfl
  have hbehind : (front ++ here.map (key, ·) ++ back).filter (fun p ↦ (compare key p.1).isLT) =
      back := by
    rw [List.filter_append, List.filter_eq_nil_iff.mpr, List.filter_eq_self.mpr, List.nil_append]
    · intro p hp
      rw [hback p hp]
      rfl
    · intro p hp
      cases List.mem_append.mp hp with
      | inl hp =>
          rw [hgt' hp]
          decide
      | inr hp =>
          have ⟨_, _, hp⟩ := List.mem_map.mp hp
          rw [← hp, ReflOrd.compare_self]
          decide
  unfold insert
  rw [hbefore, hbehind, List.map_append, ← List.append_assoc, List.append_assoc (front ++ _)]
  rfl

end Around

end PairList

/-! ## 4. Pairs around a key -/

namespace MultiMap

section Around

variable {K V : Type}

@[simp] theorem flatten_nil : flatten ([] : List (K × List V)) = [] := rfl

@[simp] theorem flatten_append (entries more : List (K × List V)) :
    flatten (entries ++ more) = flatten entries ++ flatten more := List.flatMap_append

@[simp] theorem flatten_singleton (key : K) (values : List V) :
    flatten [(key, values)] = values.map (key, ·) := by
  simp [flatten]

theorem exists_of_mem_flatten {entries : List (K × List V)} {p : K × V} (h : p ∈ flatten entries) :
    ∃ entry ∈ entries, p.1 = entry.1 := by
  have ⟨entry, hentry, hp⟩ := List.mem_flatMap.mp h
  have ⟨value, _, hvalue⟩ := List.mem_map.mp hp
  exact ⟨entry, hentry, by rw [← hvalue]⟩

variable [Ord K] [TransOrd K]

def bucket (m : MultiMap K V) (key : K) : List V := m.entries[key]?.getD []

def front (m : MultiMap K V) (key : K) : PairList K V := flatten (m.entries.below key)

def back (m : MultiMap K V) (key : K) : PairList K V := flatten (m.entries.above key)

theorem lt_of_mem_front {m : MultiMap K V} {key : K} {p : K × V} (h : p ∈ m.front key) :
    compare p.1 key = .lt := by
  have ⟨entry, hentry, hkey⟩ := exists_of_mem_flatten h
  rw [hkey]
  exact OrderedMap.lt_of_mem_below hentry

theorem lt_of_mem_back {m : MultiMap K V} {key : K} {p : K × V} (h : p ∈ m.back key) :
    compare key p.1 = .lt := by
  have ⟨entry, hentry, hkey⟩ := exists_of_mem_flatten h
  rw [hkey]
  exact OrderedMap.lt_of_mem_above hentry

variable [LawfulEqOrd K]

theorem ne_of_mem_front {m : MultiMap K V} {key : K} {p : K × V} (h : p ∈ m.front key) :
    p.1 ≠ key := by
  intro hkey
  have hlt := lt_of_mem_front h
  rw [hkey, ReflOrd.compare_self] at hlt
  cases hlt

theorem ne_of_mem_back {m : MultiMap K V} {key : K} {p : K × V} (h : p ∈ m.back key) :
    p.1 ≠ key := by
  intro hkey
  have hlt := lt_of_mem_back h
  rw [hkey, ReflOrd.compare_self] at hlt
  cases hlt

theorem iter_split (m : MultiMap K V) (key : K) :
    m.iter = m.front key ++ (m.bucket key).map (key, ·) ++ m.back key := by
  unfold iter bucket
  rw [OrderedMap.toList_split m.entries key, flatten_append, flatten_append]
  cases m.entries[key]? with
  | none => rfl
  | some values =>
      show _ ++ flatten [(key, values)] ++ _ = _
      rw [flatten_singleton]
      rfl

theorem iter_ordered (m : MultiMap K V) : PairList.Ordered m.iter := by
  apply List.pairwise_flatMap.mpr
  constructor
  · intro entry _
    apply List.pairwise_map.mpr
    apply List.pairwise_of_forall
    intro _ _
    rw [ReflOrd.compare_self]
    rfl
  · apply (OrderedMap.toList_sorted m.entries).imp
    intro entry entry' hlt p hp q hq
    have ⟨_, _, hp⟩ := List.mem_map.mp hp
    have ⟨_, _, hq⟩ := List.mem_map.mp hq
    rw [← hp, ← hq, hlt]
    rfl

variable [DecidableEq K]

theorem iter_put (m : MultiMap K V) (key : K) (values : List V) (len : Nat) :
    iter ⟨m.entries.insert key values, len⟩ = m.front key ++ values.map (key, ·) ++ m.back key := by
  unfold iter
  rw [OrderedMap.toList_insert, flatten_append, flatten_append, flatten_singleton]
  rfl

theorem iter_erase (m : MultiMap K V) (key : K) (len : Nat) :
    iter ⟨m.entries.erase key, len⟩ = m.front key ++ m.back key := by
  unfold iter
  rw [OrderedMap.toList_erase, flatten_append]
  rfl

end Around

/-! ## 5. Passes over the pairs -/

section Passes

variable {K V σ : Type}

theorem flatten_cons (entry : K × List V) (entries : List (K × List V)) :
    flatten (entry :: entries) = entry.2.map (entry.1, ·) ++ flatten entries := rfl

theorem update_append (callback : σ → K × V → V × σ) (pairs more : PairList K V) (w : σ) :
    PairList.update callback (pairs ++ more) w =
      ((PairList.update callback pairs w).1 ++
          (PairList.update callback more (PairList.update callback pairs w).2).1,
        (PairList.update callback more (PairList.update callback pairs w).2).2) := by
  induction pairs generalizing w with
  | nil => rfl
  | cons pair pairs ih =>
      rw [List.cons_append, PairList.update, PairList.update]
      dsimp only
      rw [ih]
      rfl

/-- The pairs of one bucket. -/
theorem update_map (callback : σ → K × V → V × σ) (key : K) (values : List V) (w : σ) :
    PairList.update callback (values.map (key, ·)) w =
      ((updateValues (fun w value ↦ callback w (key, value)) values w).1.map (key, ·),
        (updateValues (fun w value ↦ callback w (key, value)) values w).2) := by
  induction values generalizing w with
  | nil => rfl
  | cons value values ih =>
      rw [List.map_cons, PairList.update, updateValues]
      dsimp only
      rw [ih]
      rfl

theorem update_id {callback : σ → K × V → V × σ} {pairs : PairList K V}
    (h : ∀ p ∈ pairs, ∀ w, callback w p = (p.2, w)) (w : σ) :
    PairList.update callback pairs w = (pairs, w) := by
  induction pairs with
  | nil => rfl
  | cons pair pairs ih =>
      rw [PairList.update, h pair List.mem_cons_self w, ih fun p hp ↦ h p (List.mem_cons_of_mem _ hp)]

theorem length_updateValues (callback : σ → V → V × σ) (values : List V) (w : σ) :
    (updateValues callback values w).1.length = values.length := by
  induction values generalizing w with
  | nil => rfl
  | cons value values ih =>
      rw [updateValues, List.length_cons, List.length_cons, ih]

theorem length_update (callback : σ → K × V → V × σ) (pairs : PairList K V) (w : σ) :
    (PairList.update callback pairs w).1.length = pairs.length := by
  induction pairs generalizing w with
  | nil => rfl
  | cons pair pairs ih =>
      rw [PairList.update, List.length_cons, List.length_cons, ih]

theorem update_flatten (callback : σ → K → V → V × σ) (entries : List (K × List V)) (w : σ) :
    PairList.update (fun w p ↦ callback w p.1 p.2) (flatten entries) w =
      (flatten (updateEntries callback entries w).1, (updateEntries callback entries w).2) := by
  induction entries generalizing w with
  | nil => rfl
  | cons entry entries ih =>
      rw [flatten_cons, update_append, update_map, updateEntries]
      dsimp only
      rw [ih, flatten_cons]

/-- The keys stay, and so does the size of every bucket. -/
theorem updateEntries_shape (callback : σ → K → V → V × σ) (entries : List (K × List V)) (w : σ) :
    (updateEntries callback entries w).1.map (fun entry ↦ (entry.1, entry.2.length)) =
      entries.map fun entry ↦ (entry.1, entry.2.length) := by
  induction entries generalizing w with
  | nil => rfl
  | cons entry entries ih =>
      rw [updateEntries, List.map_cons, List.map_cons, ih, length_updateValues]

theorem retain_append (predicate : σ → K → V → Bool × σ) (pairs more : PairList K V) (w : σ) :
    PairList.retain predicate (pairs ++ more) w =
      ((PairList.retain predicate pairs w).1 ++
          (PairList.retain predicate more (PairList.retain predicate pairs w).2).1,
        (PairList.retain predicate more (PairList.retain predicate pairs w).2).2) := by
  induction pairs generalizing w with
  | nil => rfl
  | cons pair pairs ih =>
      rw [List.cons_append, PairList.retain, PairList.retain]
      dsimp only
      rw [ih]
      split <;> rfl

/-- What is kept of one bucket is counted. -/
theorem retain_map (predicate : σ → K → V → Bool × σ) (key : K) (values : List V) (len : Nat) (w : σ) :
    PairList.retain predicate (values.map (key, ·)) w =
        ((retainValues (fun w value ↦ predicate w key value) values len w).1.map (key, ·),
          (retainValues (fun w value ↦ predicate w key value) values len w).2.2) ∧
      (retainValues (fun w value ↦ predicate w key value) values len w).2.1 =
        len + (retainValues (fun w value ↦ predicate w key value) values len w).1.length := by
  induction values generalizing len w with
  | nil => exact ⟨rfl, rfl⟩
  | cons value values ih =>
      rw [List.map_cons, PairList.retain, retainValues]
      dsimp only
      split
      case isTrue =>
        have ⟨hpairs, hlen⟩ := ih (len + 1) (predicate w key value).2
        rw [hpairs, hlen, List.length_cons]
        exact ⟨rfl, by omega⟩
      case isFalse =>
        have ⟨hpairs, hlen⟩ := ih len (predicate w key value).2
        rw [hpairs]
        exact ⟨rfl, hlen⟩

theorem retain_flatten (predicate : σ → K → V → Bool × σ) (entries : List (K × List V)) (len : Nat)
    (w : σ) : PairList.retain predicate (flatten entries) w =
        (flatten (retainEntries predicate entries len w).1, (retainEntries predicate entries len w).2.2) ∧
      (retainEntries predicate entries len w).2.1 =
        len + (flatten (retainEntries predicate entries len w).1).length := by
  induction entries generalizing len w with
  | nil => exact ⟨rfl, rfl⟩
  | cons entry entries ih =>
      have ⟨hpairs, hlen⟩ := retain_map predicate entry.1 entry.2 len w
      rw [flatten_cons, retain_append, hpairs, retainEntries]
      dsimp only
      generalize retainValues (fun w value ↦ predicate w entry.1 value) entry.2 len w = kept at hlen
      have ⟨hrest, hlen'⟩ := ih kept.2.1 kept.2.2
      rw [hrest, hlen']
      cases hkept : kept.1 with
      | nil =>
          rw [hkept, List.length_nil] at hlen
          rw [hlen]
          exact ⟨rfl, rfl⟩
      | cons value values =>
          rw [hkept] at hlen
          rw [if_neg (by simp), flatten_cons, List.length_append, List.length_map]
          exact ⟨rfl, by dsimp only; omega⟩

/-- Only filled buckets are kept, under keys that were there. -/
theorem retainEntries_keys (predicate : σ → K → V → Bool × σ) (entries : List (K × List V))
    (len : Nat) (w : σ) :
    ((retainEntries predicate entries len w).1.map Prod.fst).Sublist (entries.map Prod.fst) ∧
      ∀ entry ∈ (retainEntries predicate entries len w).1, entry.2 ≠ [] := by
  induction entries generalizing len w with
  | nil => exact ⟨List.Sublist.slnil, fun _ h ↦ nomatch h⟩
  | cons entry entries ih =>
      rw [retainEntries]
      dsimp only
      generalize retainValues (fun w value ↦ predicate w entry.1 value) entry.2 len w = kept
      have ⟨hkeys, hfilled⟩ := ih kept.2.1 kept.2.2
      cases hkept : kept.1 with
      | nil => exact ⟨hkeys.cons _, hfilled⟩
      | cons value values =>
          rw [if_neg (by simp)]
          constructor
          · exact hkeys.cons_cons _
          · intro entry' hentry
            cases List.mem_cons.mp hentry with
            | inl hsame =>
                rw [hsame]
                exact List.cons_ne_nil _ _
            | inr hrest => exact hfilled entry' hrest

theorem removeFirst_eq [BEq V] (value : V) (values : List V) :
    removeFirst value values false =
      (values.eraseP (· == value), values.any (· == value)) := by
  have hdone (values : List V) : removeFirst value values true = (values, true) := by
    induction values with
    | nil => rfl
    | cons candidate values ih =>
        rw [removeFirst, if_neg (by simp), ih]
  induction values with
  | nil => rfl
  | cons candidate values ih =>
      rw [removeFirst, List.any_cons]
      cases hsame : candidate == value with
      | true =>
          rw [List.eraseP_cons, hsame]
          exact hdone values
      | false =>
          rw [List.eraseP_cons, hsame, ih]
          rfl

end Passes

/-! ## 6. One operation -/

section Simulation

variable {K V σ : Type} [Ord K] [TransOrd K]

/-- The multimap shows the pairs. -/
structure Represents (m : MultiMap K V) (pairs : PairList K V) : Prop where
  iter : m.iter = pairs
  len : m.len = pairs.length
  filled : ∀ key : K, m.entries[key]? ≠ some ([] : List V)

theorem represents_new : Represents (new : MultiMap K V) [] where
  iter := rfl
  len := rfl
  filled key := by
    intro h
    rw [show (new : MultiMap K V).entries = ∅ from rfl, ExtTreeMap.getElem?_empty] at h
    cases h

theorem bucket_eq {m : MultiMap K V} {key : K} {values : List V}
    (hvalues : m.entries[key]? = some values) :
    m.bucket key = values := by
  unfold bucket
  rw [hvalues]
  rfl

theorem keys_sorted {m : OrderedMap K (List V)} {entries : List (K × List V)}
    (h : (entries.map Prod.fst).Sublist (m.toList.map Prod.fst)) :
    entries.Pairwise fun a b ↦ compare a.1 b.1 = .lt := by
  have hsorted : (m.toList.map Prod.fst).Pairwise fun k k' ↦ compare k k' = .lt :=
    List.pairwise_map.mpr (OrderedMap.toList_sorted m)
  exact List.pairwise_map.mp (hsorted.sublist h)

variable [LawfulEqOrd K]

/-- A multimap that is made of sorted buckets. -/
theorem represents_build [DecidableEq K] {entries : List (K × List V)} {len : Nat}
    (hsorted : entries.Pairwise fun a b ↦ compare a.1 b.1 = .lt)
    (hfilled : ∀ entry ∈ entries, entry.2 ≠ []) (hlen : len = (flatten entries).length) :
    Represents ⟨(∅ : OrderedMap K (List V)).insertMany entries, len⟩ (flatten entries) where
  iter := by
    unfold iter
    rw [OrderedMap.toList_insertMany_sorted hsorted]
  len := hlen
  filled key hkey := by
    have hmem := (OrderedMap.mem_toList_iff ((∅ : OrderedMap K (List V)).insertMany entries)
      (key, [])).mpr hkey
    rw [OrderedMap.toList_insertMany_sorted hsorted] at hmem
    exact hfilled _ hmem rfl

namespace Represents

variable {m : MultiMap K V} {pairs : PairList K V} (h : Represents m pairs)

include h

theorem split (key : K) :
    pairs = m.front key ++ (m.bucket key).map (key, ·) ++ m.back key := by
  rw [← h.iter, iter_split m key]

theorem length_bucket_le (key : K) : (m.bucket key).length ≤ m.len := by
  have hlength := congrArg List.length (h.split key)
  rw [← h.len] at hlength
  simp only [List.length_append, List.length_map] at hlength
  omega

theorem containsKey_iff (key : K) : m.containsKey key ↔ ∃ p ∈ pairs, p.1 = key := by
  unfold containsKey
  rw [ExtTreeMap.contains_iff_mem, ExtTreeMap.mem_iff_isSome_getElem?, h.split key]
  constructor
  · intro hsome
    have ⟨values, hvalues⟩ := Option.isSome_iff_exists.mp hsome
    cases values with
    | nil => exact absurd hvalues (h.filled key)
    | cons value values =>
        refine ⟨(key, value), ?_, rfl⟩
        unfold bucket
        rw [hvalues]
        simp
  · intro hpair
    have ⟨p, hp, hkey⟩ := hpair
    rcases List.mem_append.mp hp with hp | hback
    · rcases List.mem_append.mp hp with hfront | hbucket
      · exact absurd hkey (ne_of_mem_front hfront)
      · unfold bucket at hbucket
        cases hvalues : m.entries[key]? with
        | none =>
            rw [hvalues] at hbucket
            cases hbucket
        | some values => rfl
    · exact absurd hkey (ne_of_mem_back hback)

theorem insert_eq (key : K) (value : V) : pairs.insert key value =
    m.front key ++ (m.bucket key ++ [value]).map (key, ·) ++ m.back key := by
  rw [h.split key]
  exact PairList.insert_around (fun _ hp ↦ lt_of_mem_front hp) (m.bucket key)
    (fun _ hp ↦ lt_of_mem_back hp) value

theorem pairs_of_none {key : K} (hvalues : m.entries[key]? = none) :
    pairs = m.front key ++ m.back key ∧ m.bucket key = [] := by
  have hbucket : m.bucket key = [] := by
    unfold bucket
    rw [hvalues]
    rfl
  have hsplit := h.split key
  rw [hbucket, List.map_nil, List.append_nil] at hsplit
  exact ⟨hsplit, hbucket⟩

variable [DecidableEq K]

theorem filled_put {key : K} {values : List V} (hvalues : values ≠ []) :
    ∀ key' : K, (m.entries.insert key values)[key']? ≠ some ([] : List V) := by
  intro key'
  rw [OrderedMap.getElem?_insert]
  by_cases hkey : key = key'
  · rw [if_pos hkey]
    exact fun hsome ↦ hvalues (Option.some.inj hsome)
  · rw [if_neg hkey]
    exact h.filled key'

theorem filled_erase (key : K) : ∀ key' : K, (m.entries.erase key)[key']? ≠ some ([] : List V) := by
  intro key'
  rw [OrderedMap.getElem?_erase]
  by_cases hkey : key = key'
  · rw [if_pos hkey]
    exact fun hsome ↦ nomatch hsome
  · rw [if_neg hkey]
    exact h.filled key'

/-- The values of a key are replaced. -/
theorem put {key : K} {values : List V} (hvalues : values ≠ []) {len : Nat}
    (hlen : len + (m.bucket key).length = m.len + values.length) :
    Represents ⟨m.entries.insert key values, len⟩
      (m.front key ++ values.map (key, ·) ++ m.back key) where
  iter := iter_put m key values len
  len := by
    have hlength := congrArg List.length (h.split key)
    rw [← h.len] at hlength
    simp only [List.length_append, List.length_map] at hlength ⊢
    omega
  filled := h.filled_put hvalues

/-- The values of a key are dropped. -/
theorem drop {key : K} {len : Nat} (hlen : len + (m.bucket key).length = m.len) :
    Represents ⟨m.entries.erase key, len⟩ (m.front key ++ m.back key) where
  iter := iter_erase m key len
  len := by
    have hlength := congrArg List.length (h.split key)
    rw [← h.len] at hlength
    simp only [List.length_append, List.length_map] at hlength ⊢
    omega
  filled := h.filled_erase key

theorem insert (key : K) (value : V) :
    Represents (m.insert key value) (pairs.insert key value) := by
  rw [h.insert_eq]
  apply h.put (by simp)
  show m.len + 1 + _ = m.len + (m.bucket key ++ [value]).length
  rw [List.length_append, List.length_singleton]
  omega

theorem removeAll_eq (key : K) : pairs.removeAll key = m.front key ++ m.back key := by
  have hfront : (m.front key).filter (fun p ↦ p.1 ≠ key) = m.front key :=
    List.filter_eq_self.mpr fun p hp ↦ decide_eq_true (ne_of_mem_front hp)
  have hback : (m.back key).filter (fun p ↦ p.1 ≠ key) = m.back key :=
    List.filter_eq_self.mpr fun p hp ↦ decide_eq_true (ne_of_mem_back hp)
  unfold PairList.removeAll
  rw [h.split key, List.filter_append, List.filter_append, hfront, hback]
  simp

theorem count_eq (key : K) : pairs.countP (fun p ↦ p.1 = key) = (m.bucket key).length := by
  have hfront : (m.front key).countP (fun p ↦ p.1 = key) = 0 :=
    List.countP_eq_zero.mpr fun p hp ↦ by simpa using ne_of_mem_front hp
  have hback : (m.back key).countP (fun p ↦ p.1 = key) = 0 :=
    List.countP_eq_zero.mpr fun p hp ↦ by simpa using ne_of_mem_back hp
  rw [h.split key, List.countP_append, List.countP_append, hfront, hback, List.countP_map]
  simp [Function.comp_def]

theorem removed_eq (key : K) : (m.removeAll key).2 = pairs.countP (fun p ↦ p.1 = key) := by
  rw [h.count_eq]
  unfold MultiMap.removeAll bucket
  cases m.entries[key]? <;> rfl

theorem removeAll (key : K) : Represents (m.removeAll key).1 (pairs.removeAll key) := by
  rw [h.removeAll_eq]
  apply h.drop
  rw [← h.count_eq, ← h.removed_eq]
  have hle := h.length_bucket_le key
  rw [← h.count_eq, ← h.removed_eq] at hle
  exact Nat.sub_add_cancel hle

theorem remove_eq [BEq V] (key : K) (value : V) : pairs.remove key value =
    m.front key ++ ((m.bucket key).eraseP (· == value)).map (key, ·) ++ m.back key := by
  have hfront : ∀ p ∈ m.front key, ¬(p.1 = key && p.2 == value) = true := by
    intro p hp
    simp [ne_of_mem_front hp]
  have hback : ∀ p ∈ m.back key, ¬(p.1 = key && p.2 == value) = true := by
    intro p hp
    simp [ne_of_mem_back hp]
  unfold PairList.remove
  rw [h.split key, List.append_assoc, List.eraseP_append_right _ hfront, List.append_assoc,
    List.eraseP_append]
  have hhere : ((m.bucket key).map (key, ·)).eraseP (fun p ↦ p.1 = key && p.2 == value) =
      ((m.bucket key).eraseP (· == value)).map (key, ·) := by
    rw [List.eraseP_map]
    simp [Function.comp_def]
  by_cases hany : ((m.bucket key).map (key, ·)).any fun p ↦ p.1 = key && p.2 == value
  case pos => rw [if_pos hany, hhere]
  case neg =>
    rw [if_neg hany, List.eraseP_of_forall_not hback, ← hhere, List.eraseP_of_forall_not]
    intro p hp hsame
    exact hany (List.any_eq_true.mpr ⟨p, hp, hsame⟩)

theorem any_eq [BEq V] (key : K) (value : V) :
    (pairs.any fun p ↦ p.1 = key && p.2 == value) = (m.bucket key).any (· == value) := by
  have hfront : (m.front key).any (fun p ↦ p.1 = key && p.2 == value) = false :=
    List.any_eq_false.mpr fun p hp ↦ by simp [ne_of_mem_front hp]
  have hback : (m.back key).any (fun p ↦ p.1 = key && p.2 == value) = false :=
    List.any_eq_false.mpr fun p hp ↦ by simp [ne_of_mem_back hp]
  rw [h.split key, List.any_append, List.any_append, hfront, hback, List.any_map]
  simp [Function.comp_def]

theorem remove [BEq V] (key : K) (value : V) :
    Represents (m.remove key value).1 (pairs.remove key value) ∧
      (m.remove key value).2 = pairs.any fun p ↦ p.1 = key && p.2 == value := by
  rw [h.remove_eq, h.any_eq]
  unfold MultiMap.remove
  cases hvalues : m.entries[key]? with
  | none =>
      have ⟨hpairs, hbucket⟩ := h.pairs_of_none hvalues
      rw [hbucket, List.eraseP_nil, List.map_nil, List.append_nil, ← hpairs]
      exact ⟨h, rfl⟩
  | some values =>
      have hbucket := bucket_eq hvalues
      have hle := h.length_bucket_le key
      rw [hbucket] at hle ⊢
      dsimp only
      rw [removeFirst_eq]
      dsimp only
      refine ⟨?_, rfl⟩
      have hfilled : values ≠ [] := fun hnil ↦ h.filled key (by rw [hvalues, hnil])
      have hpos := List.length_pos_of_ne_nil hfilled
      have hlength := List.length_eraseP (p := (· == value)) (l := values)
      have hlen : (if values.any (· == value) then m.len - 1 else m.len) + values.length =
          m.len + (values.eraseP (· == value)).length := by
        rw [hlength]
        split <;> omega
      cases hkept : values.eraseP (· == value) with
      | nil =>
          rw [List.isEmpty_nil, if_pos rfl, OrderedMap.erase_insert, List.map_nil, List.append_nil]
          apply h.drop
          rw [hbucket, hlen, hkept]
          rfl
      | cons first rest =>
          rw [if_neg (by simp), ← hkept]
          apply h.put
          · rw [hkept]
            exact List.cons_ne_nil _ _
          · rw [hbucket, hlen]

theorem withMut (key : K) (callback : σ → V → V × σ) (w : σ) :
    Represents (m.withMut key callback w).1.1
        (pairs.update (fun w p ↦ if p.1 = key then callback w p.2 else (p.2, w)) w).1 ∧
      (m.withMut key callback w).1.2 = pairs.countP (fun p ↦ p.1 = key) ∧
      (m.withMut key callback w).2 =
        (pairs.update (fun w p ↦ if p.1 = key then callback w p.2 else (p.2, w)) w).2 := by
  have hfront : ∀ p ∈ m.front key, ∀ w, (if p.1 = key then callback w p.2 else (p.2, w)) = (p.2, w) :=
    fun p hp w ↦ if_neg (ne_of_mem_front hp)
  have hback : ∀ p ∈ m.back key, ∀ w, (if p.1 = key then callback w p.2 else (p.2, w)) = (p.2, w) :=
    fun p hp w ↦ if_neg (ne_of_mem_back hp)
  have hupdate : pairs.update (fun w p ↦ if p.1 = key then callback w p.2 else (p.2, w)) w =
      (m.front key ++ (updateValues callback (m.bucket key) w).1.map (key, ·) ++ m.back key,
        (updateValues callback (m.bucket key) w).2) := by
    rw [h.split key, update_append, update_append, update_id hfront, update_map]
    simp only [if_true]
    rw [update_id hback]
  rw [hupdate, h.count_eq]
  unfold MultiMap.withMut
  cases hvalues : m.entries[key]? with
  | none =>
      have ⟨hpairs, hbucket⟩ := h.pairs_of_none hvalues
      rw [hbucket, updateValues, List.map_nil, List.append_nil, ← hpairs]
      exact ⟨h, rfl, rfl⟩
  | some values =>
      have hbucket := bucket_eq hvalues
      rw [hbucket]
      refine ⟨?_, rfl, rfl⟩
      have hlength := length_updateValues callback values w
      apply h.put
      · intro hnil
        rw [hnil] at hlength
        exact h.filled key (by rw [hvalues, List.eq_nil_of_length_eq_zero hlength.symm])
      · rw [hbucket, hlength]

theorem iterMut (callback : σ → K → V → V × σ) (w : σ) :
    Represents (m.iterMut callback w).1 (pairs.update (fun w p ↦ callback w p.1 p.2) w).1 ∧
      (m.iterMut callback w).2 = (pairs.update (fun w p ↦ callback w p.1 p.2) w).2 := by
  have hupdate := update_flatten callback m.entries.toList w
  have hpairs : flatten m.entries.toList = pairs := h.iter
  rw [hpairs] at hupdate
  have hlength := length_update (fun w (p : K × V) ↦ callback w p.1 p.2) pairs w
  rw [hupdate, ← h.len] at hlength
  rw [hupdate]
  have hshape := updateEntries_shape callback m.entries.toList w
  have hkeys := congrArg (List.map Prod.fst) hshape
  rw [List.map_map, List.map_map] at hkeys
  refine ⟨represents_build (keys_sorted (m := m.entries) ?_) ?_ hlength.symm, rfl⟩
  case refine_1 =>
    show ((updateEntries callback m.entries.toList w).1.map Prod.fst).Sublist _
    rw [show (updateEntries callback m.entries.toList w).1.map Prod.fst =
      m.entries.toList.map Prod.fst from hkeys]
  case refine_2 =>
    intro entry hentry hnil
    have hmem := List.mem_map_of_mem (f := fun entry : K × List V ↦ (entry.1, entry.2.length)) hentry
    rw [hshape] at hmem
    have ⟨old, hold, hsame⟩ := List.mem_map.mp hmem
    have hempty : old.2.length = entry.2.length := congrArg Prod.snd hsame
    rw [hnil] at hempty
    apply h.filled old.1
    rw [← List.eq_nil_of_length_eq_zero hempty]
    exact (OrderedMap.mem_toList_iff m.entries old).mp hold

theorem retain (predicate : σ → K → V → Bool × σ) (w : σ) :
    Represents (m.retain predicate w).1 (pairs.retain predicate w).1 ∧
      (m.retain predicate w).2 = (pairs.retain predicate w).2 := by
  have ⟨hretain, hlen⟩ := retain_flatten predicate m.entries.toList 0 w
  have hpairs : flatten m.entries.toList = pairs := h.iter
  rw [hpairs] at hretain
  rw [Nat.zero_add] at hlen
  rw [hretain]
  have ⟨hkeys, hfilled⟩ := retainEntries_keys predicate m.entries.toList 0 w
  exact ⟨represents_build (keys_sorted hkeys) hfilled hlen, rfl⟩

end Represents

end Simulation

/-! ## 7. The consuming iterator again -/

section Consuming

variable {K V : Type}

theorem nextFrom_yields (entries : List (K × List V)) (key : K) (values : List V) :
    (values.map (key, ·) ++ flatten entries = [] ∧
        MultiMapIntoIter.nextFrom entries (some key) values = .ok none) ∨
      ∃ pair entries' key' values',
        values.map (key, ·) ++ flatten entries = pair :: (values'.map (key', ·) ++ flatten entries') ∧
        MultiMapIntoIter.nextFrom entries (some key) values =
          .ok (some (pair, ⟨entries', some key', values'⟩)) := by
  have hvalue (entries : List (K × List V)) (key : K) (value : V) (values : List V) :
      MultiMapIntoIter.nextFrom entries (some key) (value :: values) =
        .ok (some ((key, value), ⟨entries, some key, values⟩)) := by
    rw [MultiMapIntoIter.nextFrom.eq_def]
  induction entries generalizing key values with
  | nil =>
      cases values with
      | nil => exact .inl ⟨rfl, by rw [MultiMapIntoIter.nextFrom.eq_def]⟩
      | cons value values => exact .inr ⟨(key, value), [], key, values, rfl, hvalue _ _ _ _⟩
  | cons entry entries ih =>
      cases values with
      | nil =>
          have hnext : MultiMapIntoIter.nextFrom (entry :: entries) (some key) [] =
              MultiMapIntoIter.nextFrom entries (some entry.1) entry.2 := by
            rw [MultiMapIntoIter.nextFrom.eq_def]
          rw [hnext, flatten_cons]
          exact ih entry.1 entry.2
      | cons value values =>
          exact .inr ⟨(key, value), entry :: entries, key, values, rfl, hvalue _ _ _ _⟩

theorem collect_done {it : MultiMapIntoIter K V} (h : it.next = .ok none) : it.collect = .ok [] := by
  rw [MultiMapIntoIter.collect]
  split
  · rename_i hnext
    cases hnext.symm.trans h
  · rfl
  · rename_i hnext
    cases hnext.symm.trans h

theorem collect_step {it rest : MultiMapIntoIter K V} {pair : K × V} {pairs : List (K × V)}
    (h : it.next = .ok (some (pair, rest))) (hrest : rest.collect = .ok pairs) :
    it.collect = .ok (pair :: pairs) := by
  rw [MultiMapIntoIter.collect]
  split
  · rename_i hnext
    cases hnext.symm.trans h
  · rename_i hnext
    cases hnext.symm.trans h
  · rename_i hnext
    cases hnext.symm.trans h
    rw [hrest]
    rfl

theorem collect_eq {pairs : PairList K V} {entries : List (K × List V)} {key : K} {values : List V}
    (h : values.map (key, ·) ++ flatten entries = pairs) :
    MultiMapIntoIter.collect ⟨entries, some key, values⟩ = .ok pairs := by
  induction pairs generalizing entries key values with
  | nil =>
      cases nextFrom_yields entries key values with
      | inl hend => exact collect_done hend.2
      | inr hpair =>
          have ⟨_, _, _, _, hsome, _⟩ := hpair
          cases h.symm.trans hsome
  | cons pair pairs ih =>
      cases nextFrom_yields entries key values with
      | inl hend => cases h.symm.trans hend.1
      | inr hpair =>
          have ⟨first, entries', key', values', hsome, hnext⟩ := hpair
          injection h.symm.trans hsome with hfirst hrest
          rw [← hfirst] at hnext
          exact collect_step hnext (ih hrest.symm)

theorem collect_intoIter [Ord K] [TransOrd K] (m : MultiMap K V) : m.intoIter.collect = .ok m.iter := by
  unfold intoIter iter
  cases m.entries.toList with
  | nil => exact collect_done (by rw [MultiMapIntoIter.next, MultiMapIntoIter.nextFrom.eq_def])
  | cons entry entries =>
      have hnext : MultiMapIntoIter.next ⟨entry :: entries, none, []⟩ =
          MultiMapIntoIter.nextFrom entries (some entry.1) entry.2 := by
        rw [MultiMapIntoIter.next, MultiMapIntoIter.nextFrom.eq_def]
      rw [flatten_cons]
      cases nextFrom_yields entries entry.1 entry.2 with
      | inl hend =>
          rw [hend.1]
          exact collect_done (hnext.trans hend.2)
      | inr hpair =>
          have ⟨_, _, _, _, hsome, hstep⟩ := hpair
          rw [hsome]
          exact collect_step (hnext.trans hstep) (collect_eq rfl)

end Consuming

/-! ## 8. Runs -/

/-- The calls that change a multimap; the callbacks may change their surroundings. -/
inductive Operation (K V σ : Type)
  | insert (key : K) (value : V)
  | remove (key : K) (value : V)
  | removeAll (key : K)
  | retain (predicate : σ → K → V → Bool × σ)
  | withMut (key : K) (callback : σ → V → V × σ)
  | iterMut (callback : σ → K → V → V × σ)
  | clear

/-- What a call returns. -/
inductive Answer
  | done
  | found (removed : Bool)
  | count (values : Nat)
deriving DecidableEq

section Runs

variable {K V σ : Type} [Ord K] [TransOrd K] [DecidableEq K] [BEq V]

/-- A call on a multimap, with the surroundings of the callbacks and the answers so far. -/
def step (s : MultiMap K V × σ × List Answer) :
    Operation K V σ → MultiMap K V × σ × List Answer
  | .insert key value => (s.1.insert key value, s.2.1, s.2.2 ++ [.done])
  | .remove key value =>
      let result := s.1.remove key value
      (result.1, s.2.1, s.2.2 ++ [.found result.2])
  | .removeAll key =>
      let result := s.1.removeAll key
      (result.1, s.2.1, s.2.2 ++ [.count result.2])
  | .retain predicate =>
      let result := s.1.retain predicate s.2.1
      (result.1, result.2, s.2.2 ++ [.done])
  | .withMut key callback =>
      let result := s.1.withMut key callback s.2.1
      (result.1.1, result.2, s.2.2 ++ [.count result.1.2])
  | .iterMut callback =>
      let result := s.1.iterMut callback s.2.1
      (result.1, result.2, s.2.2 ++ [.done])
  | .clear => (s.1.clear, s.2.1, s.2.2 ++ [.done])

/-- The same call on the pairs. -/
def pairStep (s : PairList K V × σ × List Answer) :
    Operation K V σ → PairList K V × σ × List Answer
  | .insert key value => (s.1.insert key value, s.2.1, s.2.2 ++ [.done])
  | .remove key value =>
      (s.1.remove key value, s.2.1, s.2.2 ++ [.found (s.1.any fun p ↦ p.1 = key && p.2 == value)])
  | .removeAll key =>
      (s.1.removeAll key, s.2.1, s.2.2 ++ [.count (s.1.countP fun p ↦ p.1 = key)])
  | .retain predicate =>
      let result := s.1.retain predicate s.2.1
      (result.1, result.2, s.2.2 ++ [.done])
  | .withMut key callback =>
      let result := s.1.update (fun w p ↦ if p.1 = key then callback w p.2 else (p.2, w)) s.2.1
      (result.1, result.2, s.2.2 ++ [.count (s.1.countP fun p ↦ p.1 = key)])
  | .iterMut callback =>
      let result := s.1.update (fun w p ↦ callback w p.1 p.2) s.2.1
      (result.1, result.2, s.2.2 ++ [.done])
  | .clear => ([], s.2.1, s.2.2 ++ [.done])

variable [LawfulEqOrd K]

theorem step_represents {m : MultiMap K V} {pairs : PairList K V} (h : Represents m pairs) (w : σ)
    (answers : List Answer) (operation : Operation K V σ) :
    Represents (step (m, w, answers) operation).1 (pairStep (pairs, w, answers) operation).1 ∧
      (step (m, w, answers) operation).2 = (pairStep (pairs, w, answers) operation).2 := by
  cases operation with
  | insert key value => exact ⟨h.insert key value, rfl⟩
  | remove key value =>
      have ⟨hremove, hfound⟩ := h.remove key value
      refine ⟨hremove, ?_⟩
      show (w, answers ++ [.found (m.remove key value).2]) = _
      rw [hfound]
      rfl
  | removeAll key =>
      refine ⟨h.removeAll key, ?_⟩
      show (w, answers ++ [.count (m.removeAll key).2]) = _
      rw [h.removed_eq]
      rfl
  | retain predicate =>
      have ⟨hretain, hw⟩ := h.retain predicate w
      exact ⟨hretain, by rw [step, pairStep, hw]⟩
  | withMut key callback =>
      have ⟨hupdate, hcount, hw⟩ := h.withMut key callback w
      exact ⟨hupdate, by rw [step, pairStep, hcount, hw]⟩
  | iterMut callback =>
      have ⟨hupdate, hw⟩ := h.iterMut callback w
      exact ⟨hupdate, by rw [step, pairStep, hw]⟩
  | clear => exact ⟨represents_new, rfl⟩

theorem run_represents {m : MultiMap K V} {pairs : PairList K V} (h : Represents m pairs) (w : σ)
    (answers : List Answer) (operations : List (Operation K V σ)) :
    Represents (run step (m, w, answers) operations).1 (run pairStep (pairs, w, answers) operations).1 ∧
      (run step (m, w, answers) operations).2 = (run pairStep (pairs, w, answers) operations).2 := by
  induction operations generalizing m pairs w answers with
  | nil => exact ⟨h, rfl⟩
  | cons operation operations ih =>
      have ⟨hstep, hsame⟩ := step_represents h w answers operation
      rw [run_cons, run_cons]
      generalize step (m, w, answers) operation = s at hstep hsame
      generalize pairStep (pairs, w, answers) operation = t at hstep hsame
      have ⟨m', w', answers'⟩ := s
      have ⟨pairs', w'', answers''⟩ := t
      cases hsame
      exact ih hstep w' answers'

/-- Everything a multimap shows is that of a list of pairs. -/
structure Shows (m : MultiMap K V) (pairs : PairList K V) : Prop where
  iter : m.iter = pairs
  intoIter : m.intoIter.collect = .ok pairs
  ordered : PairList.Ordered pairs
  len : m.len = pairs.length
  keyLen : m.keyLen = (pairs.map Prod.fst).dedup.length
  containsKey : ∀ key, m.containsKey key ↔ ∃ p ∈ pairs, p.1 = key
  filled : ∀ key : K, m.entries[key]? ≠ some ([] : List V)

omit [BEq V] in
theorem Represents.keyLen {m : MultiMap K V} {pairs : PairList K V} (h : Represents m pairs) :
    m.keyLen = (pairs.map Prod.fst).dedup.length := by
  unfold MultiMap.keyLen
  rw [← ExtTreeMap.length_keys]
  apply List.Perm.length_eq
  apply (List.perm_ext_iff_of_nodup ExtTreeMap.nodup_keys (List.nodup_dedup _)).mpr
  intro key
  rw [ExtTreeMap.mem_keys, List.mem_dedup, List.mem_map, ← ExtTreeMap.contains_iff_mem]
  exact h.containsKey_iff key

omit [BEq V] in
theorem Represents.shows {m : MultiMap K V} {pairs : PairList K V} (h : Represents m pairs) :
    Shows m pairs where
  iter := h.iter
  intoIter := by rw [collect_intoIter, h.iter]
  ordered := by
    rw [← h.iter]
    exact iter_ordered m
  len := h.len
  keyLen := h.keyLen
  containsKey := h.containsKey_iff
  filled := h.filled

/-- Through all calls a multimap is a sorted list of pairs. -/
theorem multimap_is_sorted_list (w : σ) (operations : List (Operation K V σ)) :
    Shows (run step (new, w, []) operations).1 (run pairStep ([], w, []) operations).1 ∧
      (run step (new, w, []) operations).2 = (run pairStep ([], w, []) operations).2 := by
  have ⟨hrepresents, hsame⟩ := run_represents represents_new w [] operations
  exact ⟨hrepresents.shows, hsame⟩

/-- The calls of the runtime's own test, and one that counts the values of a key. -/
def sampleCalls : List (Operation Nat String Nat) :=
  [.insert 2 "second-a", .insert 1 "first", .insert 2 "second-b",
    .withMut 2 fun count value ↦ (value, count + 1), .remove 2 "second-a", .remove 2 "missing",
    .retain fun count key value ↦ (key = 1 || value == "second-b", count)]

theorem sampleCalls_shown :
    Shows (run step (new, 0, []) sampleCalls).1 [(1, "first"), (2, "second-b")] ∧
      (run step (new, 0, []) sampleCalls).2 =
        (2, [.done, .done, .done, .count 2, .found true, .found false, .done]) :=
  multimap_is_sorted_list 0 sampleCalls

end Runs

end MultiMap

end Stainless.Runtime
