import Mathlib.Computability.RegularExpressions

/-!
# Longest matches

The longest prefix of a word that a regular expression matches, and the choice among several expressions
that generated lexers make: the longest match, and of equally long ones the first.
-/

namespace Reasoning

open RegularExpression

variable {α κ : Type*} [DecidableEq α]

/-! ## 1. Prefixes that match -/

/-- The expression matches the first `n` letters. -/
def Matches (P : RegularExpression α) (word : List α) (n : Nat) : Prop :=
  n ≤ word.length ∧ P.rmatch (word.take n) = true

instance (P : RegularExpression α) (word : List α) (n : Nat) : Decidable (Matches P word n) :=
  inferInstanceAs (Decidable (_ ∧ _))

theorem matches_nil {P : RegularExpression α} {n : Nat} :
    Matches P [] n ↔ n = 0 ∧ P.matchEpsilon = true := by
  constructor
  · rintro ⟨hlength, hmatch⟩
    rw [List.take_nil] at hmatch
    exact ⟨Nat.le_zero.mp hlength, hmatch⟩
  · rintro ⟨rfl, hmatch⟩
    exact ⟨Nat.le_refl 0, hmatch⟩

theorem matches_zero {P : RegularExpression α} {word : List α} : Matches P word 0 ↔ P.matchEpsilon = true :=
  ⟨fun h ↦ h.2, fun h ↦ ⟨Nat.zero_le _, h⟩⟩

theorem matches_cons_succ {P : RegularExpression α} {a : α} {word : List α} {n : Nat} :
    Matches P (a :: word) (n + 1) ↔ Matches (P.deriv a) word n := by
  unfold Matches
  rw [List.length_cons, Nat.add_le_add_iff_right, List.take_succ_cons, rmatch]

theorem Matches.append {P : RegularExpression α} {word : List α} {n : Nat} (h : Matches P word n)
    (rest : List α) : Matches P (word ++ rest) n := by
  constructor
  · rw [List.length_append]
    exact Nat.le_add_right_of_le h.1
  · rw [List.take_append_of_le_length h.1]
    exact h.2

theorem Matches.of_append {P : RegularExpression α} {word rest : List α} {n : Nat}
    (h : Matches P (word ++ rest) n) (hn : n ≤ word.length) : Matches P word n := by
  have hmatch := h.2
  rw [List.take_append_of_le_length hn] at hmatch
  exact ⟨hn, hmatch⟩

/-- A word that matches ends where a longer one begins. -/
theorem matches_length {P : RegularExpression α} {word : List α} (h : P.rmatch word = true) :
    Matches P word word.length := by
  refine ⟨Nat.le_refl _, ?_⟩
  rw [List.take_length]
  exact h

/-! ## 2. The longest prefix -/

def longestMatch (P : RegularExpression α) : List α → Option Nat
  | [] => if P.matchEpsilon then some 0 else none
  | a :: word =>
      match longestMatch (P.deriv a) word with
      | some n => some (n + 1)
      | none => if P.matchEpsilon then some 0 else none

theorem longestMatch_cases (P : RegularExpression α) (word : List α) :
    (longestMatch P word = none ∧ ∀ n, ¬Matches P word n) ∨
      ∃ n, longestMatch P word = some n ∧ Matches P word n ∧ ∀ m, Matches P word m → m ≤ n := by
  induction word generalizing P with
  | nil =>
      unfold longestMatch
      cases hempty : P.matchEpsilon with
      | true =>
          right
          exact ⟨0, if_pos rfl, matches_nil.mpr ⟨rfl, hempty⟩, fun m hm ↦ (matches_nil.mp hm).1.le⟩
      | false =>
          left
          refine ⟨if_neg (by decide), fun n hn ↦ ?_⟩
          rw [(matches_nil.mp hn).2] at hempty
          cases hempty
  | cons a word ih =>
      unfold longestMatch
      rcases ih (P.deriv a) with ⟨hnone, hno⟩ | ⟨n, hsome, hmatch, hlongest⟩
      · -- no longer prefix matches, so the empty one is all there can be
        have hzero (m : Nat) (hm : Matches P (a :: word) m) : m = 0 := by
          cases m with
          | zero => rfl
          | succ m => exact absurd (matches_cons_succ.mp hm) (hno m)
        rw [hnone]
        cases hempty : P.matchEpsilon with
        | true =>
            right
            exact ⟨0, if_pos rfl, matches_zero.mpr hempty, fun m hm ↦ (hzero m hm).le⟩
        | false =>
            left
            refine ⟨if_neg (by decide), fun m hm ↦ ?_⟩
            rw [hzero m hm, matches_zero, hempty] at hm
            cases hm
      · right
        rw [hsome]
        refine ⟨n + 1, rfl, matches_cons_succ.mpr hmatch, fun m hm ↦ ?_⟩
        cases m with
        | zero => omega
        | succ m => exact Nat.succ_le_succ (hlongest m (matches_cons_succ.mp hm))

theorem longestMatch_eq_some {P : RegularExpression α} {word : List α} {n : Nat} :
    longestMatch P word = some n ↔ Matches P word n ∧ ∀ m, Matches P word m → m ≤ n := by
  rcases longestMatch_cases P word with ⟨hnone, hno⟩ | ⟨k, hsome, hmatch, hlongest⟩
  · rw [hnone]
    exact ⟨nofun, fun h ↦ absurd h.1 (hno n)⟩
  · rw [hsome]
    constructor
    · rintro ⟨⟩
      exact ⟨hmatch, hlongest⟩
    · rintro ⟨hmatch', hlongest'⟩
      rw [Nat.le_antisymm (hlongest' k hmatch) (hlongest n hmatch')]

theorem longestMatch_eq_none {P : RegularExpression α} {word : List α} :
    longestMatch P word = none ↔ ∀ n, ¬Matches P word n := by
  rcases longestMatch_cases P word with ⟨hnone, hno⟩ | ⟨k, hsome, hmatch, _⟩
  · exact ⟨fun _ ↦ hno, fun _ ↦ hnone⟩
  · rw [hsome]
    exact ⟨nofun, fun h ↦ absurd hmatch (h k)⟩

/-- Two words with the same matching prefixes have the same longest one. -/
theorem longestMatch_congr {P : RegularExpression α} {word word' : List α}
    (h : ∀ n, Matches P word n ↔ Matches P word' n) : longestMatch P word = longestMatch P word' := by
  rcases longestMatch_cases P word with ⟨hnone, hno⟩ | ⟨k, hsome, hmatch, hlongest⟩
  · rw [hnone, eq_comm, longestMatch_eq_none]
    exact fun n hn ↦ hno n ((h n).mpr hn)
  · rw [hsome, eq_comm, longestMatch_eq_some]
    exact ⟨(h k).mp hmatch, fun m hm ↦ hlongest m ((h m).mpr hm)⟩

/-! ## 3. The choice -/

/-- The longer of two matches, the first of equally long ones. -/
def longer : Option (κ × Nat) → Option (κ × Nat) → Option (κ × Nat)
  | none, found => found
  | some best, none => some best
  | some best, some other => if best.2 < other.2 then some other else some best

/-- The kind and the length of the longest match of any row, the first of equally long ones. -/
def munch : List (RegularExpression α × κ) → List α → Option (κ × Nat)
  | [], _ => none
  | (P, kind) :: rows, word => longer ((longestMatch P word).map fun n ↦ (kind, n)) (munch rows word)

theorem munch_congr {rows : List (RegularExpression α × κ)} {word word' : List α}
    (h : ∀ row ∈ rows, longestMatch row.1 word = longestMatch row.1 word') :
    munch rows word = munch rows word' := by
  induction rows with
  | nil => rfl
  | cons row rows ih =>
      unfold munch
      rw [h row List.mem_cons_self, ih fun row' hrow ↦ h row' (List.mem_cons_of_mem _ hrow)]

/-- What is found matches, and nothing longer does. -/
def Longest (rows : List (RegularExpression α × κ)) (word : List α) : Option (κ × Nat) → Prop
  | none => ∀ row ∈ rows, ∀ n, ¬Matches row.1 word n
  | some found =>
      (∃ row ∈ rows, row.2 = found.1 ∧ Matches row.1 word found.2) ∧
        ∀ row ∈ rows, ∀ n, Matches row.1 word n → n ≤ found.2

variable {rows rows' : List (RegularExpression α × κ)} {word : List α}

theorem Longest.mono {found : κ × Nat} (h : Longest rows word (some found))
    (h' : ∀ row ∈ rows', ∀ n, Matches row.1 word n → n ≤ found.2) :
    Longest (rows ++ rows') word (some found) ∧ Longest (rows' ++ rows) word (some found) := by
  have ⟨⟨row, hrow, hkind, hmatch⟩, hlongest⟩ := h
  constructor
  · refine ⟨⟨row, List.mem_append_left _ hrow, hkind, hmatch⟩, fun row' hrow' n hn ↦ ?_⟩
    exact (List.mem_append.mp hrow').elim (hlongest row' · n hn) (h' row' · n hn)
  · refine ⟨⟨row, List.mem_append_right _ hrow, hkind, hmatch⟩, fun row' hrow' n hn ↦ ?_⟩
    exact (List.mem_append.mp hrow').elim (h' row' · n hn) (hlongest row' · n hn)

theorem Longest.longer {found found' : Option (κ × Nat)} (h : Longest rows word found)
    (h' : Longest rows' word found') : Longest (rows ++ rows') word (longer found found') := by
  cases found with
  | none =>
      cases found' with
      | none => exact fun row hrow ↦ (List.mem_append.mp hrow).elim (h row) (h' row)
      | some other => exact (h'.mono fun row hrow n hn ↦ absurd hn (h row hrow n)).2
  | some best =>
      cases found' with
      | none => exact (h.mono fun row hrow n hn ↦ absurd hn (h' row hrow n)).1
      | some other =>
          show Longest _ _ (if best.2 < other.2 then some other else some best)
          split
          case isTrue hlt => exact (h'.mono fun row hrow n hn ↦ (h.2 row hrow n hn).trans hlt.le).2
          case isFalse hle =>
              exact (h.mono fun row hrow n hn ↦ (h'.2 row hrow n hn).trans (Nat.le_of_not_lt hle)).1

theorem longest_longestMatch (P : RegularExpression α) (kind : κ) (word : List α) :
    Longest [(P, kind)] word ((longestMatch P word).map fun n ↦ (kind, n)) := by
  rcases longestMatch_cases P word with ⟨hnone, hno⟩ | ⟨n, hsome, hmatch, hlongest⟩
  · rw [hnone]
    intro row hrow
    rw [List.mem_singleton.mp hrow]
    exact hno
  · rw [hsome]
    refine ⟨⟨_, List.mem_singleton_self _, rfl, hmatch⟩, fun row hrow ↦ ?_⟩
    rw [List.mem_singleton.mp hrow]
    exact hlongest

theorem longest_munch (rows : List (RegularExpression α × κ)) (word : List α) :
    Longest rows word (munch rows word) := by
  induction rows with
  | nil => exact nofun
  | cons row rows ih => exact (longest_longestMatch row.1 row.2 word).longer ih

/-- What a generated lexer is said to find: a longest match of any row, and of the rows that match so much
the first. -/
def Chooses (rows : List (RegularExpression α × κ)) (word : List α) : Option (κ × Nat) → Prop
  | none => ∀ row ∈ rows, ∀ n, ¬Matches row.1 word n
  | some found =>
      (rows.find? fun row ↦ Matches row.1 word found.2).map Prod.snd = some found.1 ∧
        ∀ row ∈ rows, ∀ n, Matches row.1 word n → n ≤ found.2

theorem matching_of_find {n : Nat} {kind : κ}
    (h : (rows.find? fun row ↦ Matches row.1 word n).map Prod.snd = some kind) :
    ∃ row ∈ rows, Matches row.1 word n := by
  have ⟨row, hfind, _⟩ := Option.map_eq_some_iff.mp h
  exact ⟨row, List.mem_of_find?_eq_some hfind, of_decide_eq_true (List.find?_some hfind :)⟩

theorem Chooses.unique {found found' : Option (κ × Nat)} (h : Chooses rows word found)
    (h' : Chooses rows word found') : found = found' := by
  cases found with
  | none =>
      cases found' with
      | none => rfl
      | some other =>
          have ⟨row, hrow, hmatch⟩ := matching_of_find h'.1
          exact absurd hmatch (h row hrow _)
  | some best =>
      have ⟨row, hrow, hmatch⟩ := matching_of_find h.1
      cases found' with
      | none => exact absurd hmatch (h' row hrow _)
      | some other =>
          have ⟨row', hrow', hmatch'⟩ := matching_of_find h'.1
          have hlength : best.2 = other.2 := Nat.le_antisymm (h'.2 row hrow _ hmatch) (h.2 row' hrow' _ hmatch')
          have hkind := h.1
          rw [hlength, h'.1] at hkind
          exact congrArg some (Prod.ext (Option.some.inj hkind).symm hlength)

theorem chooses_munch (rows : List (RegularExpression α × κ)) (word : List α) :
    Chooses rows word (munch rows word) := by
  have hlongest := longest_munch rows word
  cases hmunch : munch rows word with
  | none =>
      rw [hmunch] at hlongest
      exact hlongest
  | some found =>
      rw [hmunch] at hlongest
      refine ⟨?_, hlongest.2⟩
      clear hlongest
      induction rows with
      | nil => cases hmunch
      | cons row rows ih =>
          unfold munch at hmunch
          rcases longestMatch_cases row.1 word with ⟨hnone, hno⟩ | ⟨n, hsome, hmatch, hmost⟩
          · rw [hnone] at hmunch
            rw [List.find?_cons_of_neg (by simpa using hno found.2)]
            exact ih hmunch
          · rw [hsome] at hmunch
            have hfirst : ((row :: rows).find? fun row ↦ Matches row.1 word n).map Prod.snd = some row.2 := by
              rw [List.find?_cons_of_pos (by simpa using hmatch)]
              rfl
            cases hrest : munch rows word with
            | none =>
                rw [hrest] at hmunch
                cases hmunch
                exact hfirst
            | some other =>
                rw [hrest] at hmunch
                change (if n < other.2 then some other else some (row.2, n)) = some found at hmunch
                split at hmunch
                case isTrue hlt =>
                  rw [Option.some.inj hmunch] at hrest hlt
                  -- the first row matches less
                  have hless : ¬Matches row.1 word found.2 := fun h ↦ Nat.not_lt.mpr (hmost _ h) hlt
                  rw [List.find?_cons_of_neg (by simpa using hless)]
                  exact ih hrest
                case isFalse =>
                  cases hmunch
                  exact hfirst

/-! ## 4. Letters -/

/-- The letters an expression is written with. -/
def letters : RegularExpression α → List α
  | .zero => []
  | .epsilon => []
  | .char a => [a]
  | .plus P Q => letters P ++ letters Q
  | .comp P Q => letters P ++ letters Q
  | .star P => letters P

theorem mem_letters {P : RegularExpression α} {word : List α} (h : P.rmatch word = true) {a : α}
    (ha : a ∈ word) : a ∈ letters P := by
  induction P generalizing word with
  | zero => exact absurd h (by rw [zero_def, zero_rmatch]; decide)
  | epsilon =>
      rw [(one_rmatch_iff word).mp h] at ha
      cases ha
  | char b =>
      rw [(char_rmatch_iff b word).mp h] at ha
      exact ha
  | plus P Q ihP ihQ =>
      show a ∈ letters P ++ letters Q
      rw [List.mem_append]
      cases (add_rmatch_iff P Q word).mp h with
      | inl hP => exact .inl (ihP hP ha)
      | inr hQ => exact .inr (ihQ hQ ha)
  | comp P Q ihP ihQ =>
      show a ∈ letters P ++ letters Q
      have ⟨first, second, heq, hP, hQ⟩ := (mul_rmatch_iff P Q word).mp h
      rw [heq, List.mem_append] at ha
      rw [List.mem_append]
      exact ha.imp (ihP hP) (ihQ hQ)
  | star P ih =>
      have ⟨words, heq, hwords⟩ := (star_rmatch_iff P word).mp h
      rw [heq] at ha
      have ⟨part, hpart, hmem⟩ := List.mem_flatten.mp ha
      exact ih (hwords part hpart).2 hmem

/-- No match goes past a letter that the expression is not written with. -/
theorem Matches.before {P : RegularExpression α} {word rest : List α} {a : α} {n : Nat}
    (h : Matches P (word ++ a :: rest) n) (ha : a ∉ letters P) : n ≤ word.length := by
  by_contra hlong
  refine ha (mem_letters h.2 ?_)
  rw [List.take_append, List.mem_append]
  right
  rw [show n - word.length = n - word.length - 1 + 1 by omega, List.take_succ_cons]
  exact List.mem_cons_self

end Reasoning
