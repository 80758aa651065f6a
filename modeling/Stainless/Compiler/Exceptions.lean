import Stainless.Reasoning.Chains

/-!
# Exceptions

Exception structs form a hierarchy of data bases.  A thrown object holds the object of its base, which
holds the object of its own base, up to `stainless::Exception`.
-/

open Reasoning

namespace Stainless.Compiler

/-- The exception structs of a program: the chain of bases of each ends. -/
structure ExceptionHierarchy (T : Type) where
  base : T → Option T
  /-- `stainless::Exception` -/
  root : T
  root_base : base root = none
  height : T → Nat
  base_height : ∀ {derived next}, base derived = some next → height next < height derived

namespace ExceptionHierarchy

variable {T : Type} [DecidableEq T] (hierarchy : ExceptionHierarchy T)

/-! ## 1. Bases -/

/-- The loop of `exception_covers`, for at most so many passes. -/
def coversWithin (base : T) : Nat → T → Bool
  | 0, _ => false
  | passes + 1, id =>
      if id = base then true
      else
        match hierarchy.base id with
        | none => false
        | some next => coversWithin base passes next

def exceptionCovers (base thrown : T) : Bool :=
  hierarchy.coversWithin base (hierarchy.height thrown + 1) thrown

def isExceptionStruct (type : T) : Bool := hierarchy.exceptionCovers hierarchy.root type

/-- `base` is `thrown` itself or a base of it. -/
def Covers (base thrown : T) : Prop := Reaches hierarchy.base thrown base

theorem coversWithin_iff (base : T) (passes : Nat) (id : T) (hpasses : hierarchy.height id < passes) :
    hierarchy.coversWithin base passes id = true ↔ hierarchy.Covers base id := by
  induction passes generalizing id with
  | zero => omega
  | succ passes ih =>
      rw [coversWithin]
      by_cases hbase : id = base
      · rw [if_pos hbase, hbase]
        exact iff_of_true rfl .refl
      · rw [if_neg hbase]
        cases hnext : hierarchy.base id with
        | none =>
            -- the chain ends here, before it has met `base`
            simp only [Bool.false_eq_true, false_iff]
            intro hcovers
            rcases hcovers.cases_head with heq | ⟨next, hstep, _⟩
            · exact hbase heq
            · rw [hnext] at hstep
              cases hstep
        | some next =>
            have hheight := hierarchy.base_height hnext
            show hierarchy.coversWithin base passes next = true ↔ _
            rw [ih next (by omega)]
            constructor
            · intro hcovers
              exact hcovers.head hnext
            · intro hcovers
              rcases hcovers.cases_head with heq | ⟨other, hstep, hrest⟩
              · exact absurd heq hbase
              · rw [hnext] at hstep
                cases hstep
                exact hrest

theorem exceptionCovers_iff (base thrown : T) :
    hierarchy.exceptionCovers base thrown = true ↔ hierarchy.Covers base thrown :=
  hierarchy.coversWithin_iff base _ thrown (by omega)

theorem exceptionCovers_trans {base middle thrown : T}
    (hmiddle : hierarchy.exceptionCovers middle thrown = true)
    (hbase : hierarchy.exceptionCovers base middle = true) :
    hierarchy.exceptionCovers base thrown = true := by
  rw [exceptionCovers_iff] at *
  exact Relation.ReflTransGen.trans hmiddle hbase

/-! ## 2. Thrown objects -/

/-- The embedded objects lead from `type` to the root. -/
def Lineage {F : Type} : T → List (T × F) → Prop
  | type, [] => type = hierarchy.root
  | type, (base, _) :: rest => hierarchy.base type = some base ∧ Lineage base rest

end ExceptionHierarchy

/-- A thrown object: its own fields, and the objects of its bases from the next one up. -/
structure ExceptionObject {T : Type} (hierarchy : ExceptionHierarchy T) (F : Type) where
  type : T
  fields : F
  embedded : List (T × F)
  lineage : hierarchy.Lineage type embedded

/-- The generated `__stainless_project`: an object compares its own type first, then asks the object
of its base. -/
def stainlessProject {T F : Type} [DecidableEq T] (target : T) : List (T × F) → Option (List (T × F))
  | [] => none
  | object :: embedded =>
      if target = object.1 then some (object :: embedded) else stainlessProject target embedded

namespace ExceptionObject

variable {T F : Type} [DecidableEq T] {hierarchy : ExceptionHierarchy T}
variable (exception : ExceptionObject hierarchy F)

def objects : List (T × F) := (exception.type, exception.fields) :: exception.embedded

def project (target : T) : Option (List (T × F)) := stainlessProject target exception.objects

/-- The part of the object that a `const Base&` refers to. -/
def basePart (base : T) : List (T × F) := exception.objects.dropWhile fun object ↦ !decide (base = object.1)

omit [DecidableEq T] in
theorem covers_iff_mem_lineage {type base : T} {fields : F} {embedded : List (T × F)}
    (hlineage : hierarchy.Lineage type embedded) :
    hierarchy.Covers base type ↔ ∃ object ∈ (type, fields) :: embedded, object.1 = base := by
  induction embedded generalizing type fields with
  | nil =>
      constructor
      · intro hcovers
        rcases hcovers.cases_head with heq | ⟨next, hstep, _⟩
        · exact ⟨(type, fields), List.mem_cons_self, heq⟩
        · rw [show type = hierarchy.root from hlineage, hierarchy.root_base] at hstep
          cases hstep
      · rintro ⟨object, hmem, heq⟩
        rw [List.mem_singleton.mp hmem] at heq
        rw [← heq]
        exact .refl
  | cons object rest ih =>
      obtain ⟨next, nextFields⟩ := object
      have ⟨hnext, hrest⟩ := hlineage
      constructor
      · intro hcovers
        rcases hcovers.cases_head with heq | ⟨other, hstep, htail⟩
        · exact ⟨(type, fields), List.mem_cons_self, heq⟩
        · rw [hnext] at hstep
          cases hstep
          have hfound : ∃ object ∈ (next, nextFields) :: rest, object.1 = base := (ih hrest).mp htail
          obtain ⟨object, hmem, heq⟩ := hfound
          exact ⟨object, List.mem_cons_of_mem _ hmem, heq⟩
      · rintro ⟨object, hmem, heq⟩
        rcases List.mem_cons.mp hmem with rfl | htail
        · rw [← heq]
          exact .refl
        · have hcovers : hierarchy.Covers base next := (ih hrest).mpr ⟨object, htail, heq⟩
          exact hcovers.head hnext

/-- What the generated projection finds in any list of objects. -/
theorem stainlessProject_eq (target : T) (objects : List (T × F)) :
    stainlessProject target objects =
      if ∃ object ∈ objects, object.1 = target
      then some (objects.dropWhile fun object ↦ !decide (target = object.1)) else none := by
  induction objects with
  | nil => simp [stainlessProject]
  | cons object rest ih =>
      rw [stainlessProject]
      by_cases htarget : target = object.1
      · rw [if_pos htarget, if_pos ⟨object, List.mem_cons_self, htarget.symm⟩, List.dropWhile_cons]
        simp [htarget]
      · have hrest : (∃ other ∈ object :: rest, other.1 = target) ↔ ∃ other ∈ rest, other.1 = target := by
          simp [Ne.symm htarget]
        rw [if_neg htarget, ih, List.dropWhile_cons]
        simp only [htarget, decide_false, Bool.not_false, if_true]
        exact if_congr hrest.symm rfl rfl

/-- A handler's projection succeeds exactly for the types that the analysis says it covers. -/
theorem project_eq (target : T) :
    exception.project target =
      if hierarchy.exceptionCovers target exception.type then some (exception.basePart target)
      else none := by
  rw [project, stainlessProject_eq]
  refine if_congr ?_ rfl rfl
  rw [hierarchy.exceptionCovers_iff]
  exact (covers_iff_mem_lineage exception.lineage).symm

theorem root_covers : hierarchy.exceptionCovers hierarchy.root exception.type = true := by
  rw [hierarchy.exceptionCovers_iff]
  suffices h : ∀ (embedded : List (T × F)) (type : T), hierarchy.Lineage type embedded →
      hierarchy.Covers hierarchy.root type from h _ _ exception.lineage
  intro embedded
  induction embedded with
  | nil =>
      intro type hlineage
      rw [show type = hierarchy.root from hlineage]
      exact .refl
  | cons object rest ih =>
      intro type hlineage
      have hcovers : hierarchy.Covers hierarchy.root object.1 := ih object.1 hlineage.2
      exact hcovers.head hlineage.1

end ExceptionObject

end Stainless.Compiler
