import Stainless.Reasoning.Numerals

/-!
# Texts that show where they end

Pieces of a text that can be told apart from whatever follows them.
-/

namespace Reasoning

/-! ## 1. Numbers and names -/

/-- The text does not go on with a digit. -/
def NoDigit (text : List Char) : Prop := ∀ c rest, text = c :: rest → c.isDigit = false

theorem noDigit_nil : NoDigit [] := fun _ _ h ↦ nomatch h

theorem noDigit_cons {c : Char} (hc : c.isDigit = false) (rest : List Char) : NoDigit (c :: rest) := by
  intro c' rest' h
  injection h with hsame _
  rwa [← hsame]

theorem decimal_injective {value other : Nat} (h : Nat.toDigits 10 value = Nat.toDigits 10 other) :
    value = other := by
  have hvalue : readDigits 10 0 (Nat.toDigits 10 value) = some value :=
    readDigits_toDigits (by decide) (by decide) value
  rw [h, readDigits_toDigits (by decide) (by decide)] at hvalue
  exact (Option.some.inj hvalue).symm

theorem decimal_head (value : Nat) :
    ∃ c rest, (toString value).toList = c :: rest ∧ c.isDigit = true := by
  have hdigits : (toString value).toList = Nat.toDigits 10 value := Nat.toList_repr
  cases hcase : Nat.toDigits 10 value with
  | nil => exact absurd hcase Nat.toDigits_ne_nil
  | cons c rest =>
      have hdigit := Nat.isDigit_of_mem_toDigits (c := c) (b := 10) (n := value) (by decide) (by decide)
        (hcase ▸ List.mem_cons_self)
      exact ⟨c, rest, by rw [hdigits, hcase], hdigit⟩

/-- A number in front of something that is no digit. -/
theorem decimal_delimited {value other : Nat} {x y : List Char} (hx : NoDigit x) (hy : NoDigit y)
    (h : (toString value).toList ++ x = (toString other).toList ++ y) : value = other ∧ x = y := by
  have hdigits (value : Nat) : (toString value).toList = Nat.toDigits 10 value := Nat.toList_repr
  have htake {value : Nat} {x : List Char} (hx : NoDigit x) :
      (Nat.toDigits 10 value ++ x).takeWhile Char.isDigit = Nat.toDigits 10 value := by
    rw [List.takeWhile_append_of_pos fun c hc ↦ Nat.isDigit_of_mem_toDigits (by decide) (by decide) hc]
    cases x with
    | nil => simp
    | cons c rest => simp [hx c rest rfl]
  rw [hdigits, hdigits] at h
  have hsame : Nat.toDigits 10 value = Nat.toDigits 10 other := by
    rw [← htake hx, h, htake hy]
  rw [hsame] at h
  exact ⟨decimal_injective hsame, List.append_cancel_left h⟩

/-- A name whose length in bytes is known. -/
theorem name_delimited {name other : String} {x y : List Char}
    (hsize : name.utf8ByteSize = other.utf8ByteSize) (h : name.toList ++ x = other.toList ++ y) :
    name = other ∧ x = y := by
  -- The longer name goes on with no bytes.
  have hshorter {name other : String} {x y : List Char} (hsize : name.utf8ByteSize = other.utf8ByteSize)
      (h : name.toList ++ x = other.toList ++ y) (hle : name.toList.length ≤ other.toList.length) :
      name = other := by
    have ⟨more, hmore⟩ := List.prefix_of_prefix_length_le (List.prefix_append name.toList x)
      (h ▸ List.prefix_append other.toList y) hle
    have hother : other = name ++ String.ofList more := by
      apply String.toList_injective
      rw [String.toList_append, String.toList_ofList, hmore]
    rw [hother, String.utf8ByteSize_append] at hsize
    have hempty : String.ofList more = "" := String.utf8ByteSize_eq_zero_iff.mp (by omega)
    rw [hother, hempty, String.append_empty]
  have hname : name = other := by
    cases Nat.le_total name.toList.length other.toList.length with
    | inl hle => exact hshorter hsize h hle
    | inr hle => exact (hshorter hsize.symm h.symm hle).symm
  rw [hname] at h
  exact ⟨hname, List.append_cancel_left h⟩

/-! ## 2. Codes -/

variable {α : Type}

/-- The code of `a` can be told from all others in front of texts that `stop` allows. -/
def Delimited (code : α → List Char) (domain : α → Prop) (stop : List Char → Prop) (a : α) : Prop :=
  ∀ b, domain b → ∀ x y, stop x → stop y → code a ++ x = code b ++ y → a = b ∧ x = y

/-- As many codes, one after the other. -/
theorem delimited_list {code : α → List Char} {domain : α → Prop} {stop : List Char → Prop}
    (hstop : ∀ a, domain a → ∀ x, stop x → stop (code a ++ x)) {as bs : List α}
    (has : ∀ a ∈ as, domain a ∧ Delimited code domain stop a) (hbs : ∀ b ∈ bs, domain b)
    (hlength : as.length = bs.length) {x y : List Char} (hx : stop x) (hy : stop y)
    (h : as.flatMap code ++ x = bs.flatMap code ++ y) : as = bs ∧ x = y := by
  have hstops {as : List α} {x : List Char} (has : ∀ a ∈ as, domain a) (hx : stop x) :
      stop (as.flatMap code ++ x) := by
    induction as with
    | nil => exact hx
    | cons a as ih =>
        rw [List.flatMap_cons, List.append_assoc]
        exact hstop a (has a List.mem_cons_self) _ (ih fun a ha ↦ has a (List.mem_cons_of_mem _ ha))
  induction as generalizing bs with
  | nil =>
      cases List.eq_nil_of_length_eq_zero hlength.symm
      exact ⟨rfl, h⟩
  | cons a as ih =>
      cases bs with
      | nil => cases hlength
      | cons b bs =>
          rw [List.flatMap_cons, List.flatMap_cons, List.append_assoc, List.append_assoc] at h
          have hbs' : ∀ b ∈ bs, domain b := fun b hb ↦ hbs b (List.mem_cons_of_mem _ hb)
          have has' : ∀ a ∈ as, domain a ∧ Delimited code domain stop a :=
            fun a ha ↦ has a (List.mem_cons_of_mem _ ha)
          have ⟨hfirst, hrest⟩ := (has a List.mem_cons_self).2 b (hbs b List.mem_cons_self) _ _
            (hstops (fun a ha ↦ (has' a ha).1) hx) (hstops hbs' hy) h
          have ⟨hall, hend⟩ := ih has' hbs' (Nat.succ.inj hlength) hrest
          exact ⟨by rw [hfirst, hall], hend⟩

end Reasoning
