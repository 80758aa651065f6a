import Mathlib
import Stainless.Compiler.BaseWalks
import Stainless.Compiler.TypeRecursions

/-!
# Where the resolver ends

For every walk along bases and every recursion over types, the inputs at which it ends.
-/

open Reasoning

namespace Stainless.Compiler

/-! ## 1. The condition of each loop -/

/-- Each walk ends iff something stops it or the bases run into no cycle; each recursion ends iff no
chain of new instances goes on forever. -/
structure EndsExactly (decls : Declarations) : Prop where
  exceptionCovers : ∀ base thrown,
    Terminates (fun fuel ↦ decls.exceptionCovers fuel base thrown) ↔
      decls.InheritsFrom thrown base ∨ ¬decls.Cyclic thrown
  findBaseBySuffix : ∀ id suffix,
    Terminates (fun fuel ↦ decls.findBaseBySuffix fuel id suffix) ↔
      (∃ x, decls.InheritsFrom id x ∧ decls.hasSuffix suffix x = true) ∨ ¬decls.Cyclic id
  lookupClassMemberSet : ∀ id type name,
    Terminates (fun fuel ↦ decls.lookupClassMemberSet fuel id type name) ↔
      (∃ x, decls.InheritsFrom id x ∧ decls.declaresMember name x = true) ∨ ¬decls.Cyclic id
  lookupStructField : ∀ id arguments name,
    Terminates (fun fuel ↦ decls.lookupStructField fuel id arguments [name]) ↔ ¬decls.Cyclic id
  lookupQualifiedField : ∀ id arguments qualification name, qualification ≠ [] →
    (Terminates (fun fuel ↦ decls.lookupStructField fuel id arguments (qualification ++ [name])) ↔
      (∃ target x, First decls.base (decls.hasSuffix qualification) id target ∧
        decls.InheritsFrom target x ∧ decls.declaresField name x = true) ∨ ¬decls.Cyclic id)
  structureIsCloneable : ∀ id arguments visiting,
    Terminates (fun fuel ↦ decls.structureIsCloneable fuel id arguments visiting) ↔
      ¬decls.cloneSearch.Runaway (.inl (id, arguments)) (visiting.map .inl)
  threadAutoTrait : ∀ type sync visiting,
    Terminates (fun fuel ↦ decls.threadAutoTrait fuel type sync visiting) ↔
      ¬decls.threadSearch.Runaway (sync, type.canonicalRef) visiting

theorem endsExactly (decls : Declarations) : EndsExactly decls where
  exceptionCovers := Declarations.exceptionCovers_ends_iff
  findBaseBySuffix := Declarations.findBaseBySuffix_ends_iff
  lookupClassMemberSet := Declarations.lookupClassMemberSet_ends_iff
  lookupStructField := Declarations.lookupStructField_plain_ends_iff
  lookupQualifiedField id arguments _ name hne :=
    Declarations.lookupStructField_qualified_ends_iff id arguments name hne
  structureIsCloneable id arguments visiting := by
    simp only [(Declarations.isCloneable_eq _).1]
    exact PathSearch.search_terminates_iff
  threadAutoTrait type sync visiting := by
    simp only [Declarations.threadAutoTrait_eq]
    exact PathSearch.search_terminates_iff

/-! ## 2. Two programs -/

/-- `struct A : B { i32 x; }` and `struct B : A {}`. -/
def cyclicBases : Declarations where
  count := 2
  structs id :=
    if id = 0 then { path := ["A"], base := some ⟨1, []⟩, fields := [⟨"x", true, .scalar .i32⟩] }
    else { path := ["B"], base := some ⟨0, []⟩ }
  structByPath path := if path = ["A"] then some 0 else if path = ["B"] then some 1 else none
  structByPath_path := by decide

/-- `struct A<T> { A<Vec<T>> next; }`. -/
def growing : Declarations where
  count := 1
  structs _ :=
    { path := ["A"]
      typeParameters := ["T"]
      fields := [⟨"next", true, .struct ["A"] [.native "rust::Vec" [.parameter "T"]]⟩] }
  structByPath path := if path = ["A"] then some 0 else none
  structByPath_path := by decide

def cyclicBases.a : cyclicBases.StructId := ⟨0, by decide⟩

def cyclicBases.b : cyclicBases.StructId := ⟨1, by decide⟩

def growing.a : growing.StructId := ⟨0, by decide⟩

theorem cyclicBases_cyclic : cyclicBases.Cyclic cyclicBases.a := by
  have hab : cyclicBases.base cyclicBases.a = some cyclicBases.b := rfl
  have hba : cyclicBases.base cyclicBases.b = some cyclicBases.a := rfl
  exact ⟨cyclicBases.a, .refl, .tail (.single hab) hba⟩

/-- `i32` in `depth` vectors. -/
def nested : Nat → TypeRef
  | 0 => .scalar .i32
  | depth + 1 => .native "rust::Vec" [nested depth]

theorem nested_injective {m n : Nat} (h : nested m = nested n) : m = n := by
  induction m generalizing n with
  | zero =>
      cases n with
      | zero => rfl
      | succ n => cases h
  | succ m ih =>
      cases n with
      | zero => cases h
      | succ n =>
          injection h with _ h
          injection h with h
          rw [ih h]

/-- No instance of the path is met again. -/
theorem growing_fresh {depth : Nat} {visiting : List (growing.StructId × List TypeRef)}
    (hless : ∀ instance' ∈ visiting, ∃ less < depth, instance'.2 = [nested less]) :
    (growing.a, [nested depth]) ∉ visiting := by
  intro hmem
  obtain ⟨less, hlt, heq⟩ := hless _ hmem
  have hsame := nested_injective (List.cons.inj heq).1
  omega

/-- An instance asks for the instance with one vector more. -/
theorem growing_step {fuel depth : Nat} {visiting : List (growing.StructId × List TypeRef)}
    (hfresh : (growing.a, [nested depth]) ∉ visiting) :
    growing.structureIsCloneable (fuel + 1) growing.a [nested depth] visiting =
      growing.typeIsCloneable fuel (.struct ["A"] [nested (depth + 1)])
        ((growing.a, [nested depth]) :: visiting) := by
  rw [Declarations.structureIsCloneable, if_neg hfresh, if_neg (by decide), if_neg (by decide)]
  exact Declarations.allM_singleton (fun field ↦ growing.typeIsCloneable fuel
    (growing.fieldType growing.a [nested depth] field) ((growing.a, [nested depth]) :: visiting)) _

theorem growing_search (fuel depth : Nat) (visiting : List (growing.StructId × List TypeRef))
    (hless : ∀ instance' ∈ visiting, ∃ less < depth, instance'.2 = [nested less]) :
    growing.structureIsCloneable fuel growing.a [nested depth] visiting = none := by
  induction fuel using Nat.twoStepInduction generalizing depth visiting with
  | zero => rfl
  | one =>
      rw [growing_step (growing_fresh hless)]
      rfl
  | more fuel ih _ =>
      rw [growing_step (growing_fresh hless)]
      show growing.structureIsCloneable fuel growing.a [nested (depth + 1)] _ = none
      apply ih
      intro instance' hmem
      rcases List.mem_cons.mp hmem with rfl | hmem
      · exact ⟨depth, Nat.lt_succ_self depth, rfl⟩
      · obtain ⟨less, hlt, heq⟩ := hless instance' hmem
        exact ⟨less, Nat.lt_succ_of_lt hlt, heq⟩

/-- Reading `a.x` of an `A` in the first program follows the cycle forever, and in the second one the
question whether `A<i32>` can be cloned is asked of ever larger types. -/
theorem resolution_runs_forever :
    ¬Terminates (fun fuel ↦ cyclicBases.lookupStructField fuel cyclicBases.a [] ["x"]) ∧
      ¬Terminates fun fuel ↦
        growing.structureIsCloneable fuel growing.a [.scalar .i32] [] := by
  constructor
  · have hiff := Declarations.lookupStructField_plain_ends_iff cyclicBases.a [] "x"
    exact fun h ↦ hiff.mp h cyclicBases_cyclic
  · rintro ⟨fuel, hfuel⟩
    have hnone := growing_search fuel 0 [] fun _ h ↦ absurd h List.not_mem_nil
    change (growing.structureIsCloneable fuel growing.a [nested 0] []).isSome = true at hfuel
    rw [hnone] at hfuel
    cases hfuel

end Stainless.Compiler
