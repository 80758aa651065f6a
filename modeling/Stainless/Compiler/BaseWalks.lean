import Stainless.Compiler.Declarations

/-!
# Walks along the bases of a type

A cycle among the bases is reported, but the walks of later passes still follow it: each ends exactly
where it is stopped or the bases run into no cycle.
-/

open Reasoning

namespace Stainless.Compiler

namespace Declarations

variable (decls : Declarations)

/-! ## 1. Bases -/

def InheritsFrom (derived base : decls.StructId) : Prop := Reaches decls.base derived base

/-- The bases of `id` run into a cycle. -/
def Cyclic (id : decls.StructId) : Prop := RunsIntoCycle decls.base id

/-! What stops the walks. -/

def isBase (base id : decls.StructId) : Bool := id = base

def hasSuffix (suffix : List String) (id : decls.StructId) : Bool :=
  suffix.isSuffixOf (decls.structs id).path

def declaresMember (name : String) (id : decls.StructId) : Bool :=
  !(decls.directMembers id name).isEmpty

def declaresField (name : String) (id : decls.StructId) : Bool := (decls.directField id name).isSome

variable {decls}

theorem isBase_self (base : decls.StructId) : decls.isBase base base = true := decide_eq_true rfl

theorem isBase_of_ne {base id : decls.StructId} (h : id ≠ base) : decls.isBase base id = false :=
  decide_eq_false h

theorem base_none {id : decls.StructId} (h : (decls.structs id).base = none) :
    decls.base id = none := by
  rw [base, h]
  rfl

theorem base_some {id : decls.StructId} {base : UserTypeBase decls.count}
    (h : (decls.structs id).base = some base) : decls.base id = some base.structure := by
  rw [Declarations.base, h]
  rfl

/-! ## 2. The walk that reports cycles -/

theorem validateStructCycle_eq (fuel : Nat) (seen : List decls.StructId) (id : decls.StructId) :
    decls.validateStructCycle fuel seen id = revisits decls.base fuel seen id := by
  induction fuel generalizing seen id with
  | zero => rfl
  | succ fuel ih =>
      rw [validateStructCycle, revisits]
      by_cases hmem : id ∈ seen
      · rw [if_pos hmem, if_pos hmem]
      · rw [if_neg hmem, if_neg hmem]
        cases decls.base id with
        | none => rfl
        | some base => exact ih _ base

/-- The walk with a memory always ends, and reports exactly the bases that run into a cycle. -/
theorem validateStructCycle_reports (id : decls.StructId) :
    ∃ fuel r, decls.validateStructCycle fuel [] id = some r ∧ (r = true ↔ decls.Cyclic id) := by
  have hends : Terminates fun fuel ↦ revisits decls.base fuel [] id :=
    revisits_terminates List.nodup_nil id
  obtain ⟨fuel, r, hr⟩ := hends.some
  refine ⟨fuel, r, ?_, revisits_iff (fun x hx ↦ absurd hx List.not_mem_nil) hr⟩
  rw [validateStructCycle_eq]
  exact hr

/-! ## 3. The walks that follow the bases -/

theorem exceptionCovers_eq (fuel : Nat) (base id : decls.StructId) :
    decls.exceptionCovers fuel base id =
      (follow decls.base (decls.isBase base) fuel id).map Option.isSome := by
  induction fuel generalizing id with
  | zero => rfl
  | succ fuel ih =>
      rw [exceptionCovers]
      by_cases hid : id = base
      · rw [if_pos hid, hid, follow_stop fuel (isBase_self base)]
        rfl
      · rw [if_neg hid]
        cases hbase : (decls.structs id).base with
        | none =>
            rw [follow_end fuel (isBase_of_ne hid) (base_none hbase)]
            rfl
        | some next =>
            rw [follow_next fuel (isBase_of_ne hid) (base_some hbase)]
            exact ih next.structure

theorem findBaseBySuffix_eq (fuel : Nat) (id : decls.StructId) (suffix : List String) :
    decls.findBaseBySuffix fuel id suffix =
      follow decls.base (decls.hasSuffix suffix) fuel id := by
  induction fuel generalizing id with
  | zero => rfl
  | succ fuel ih =>
      rw [findBaseBySuffix]
      by_cases hid : suffix.isSuffixOf (decls.structs id).path = true
      · rw [if_pos hid, follow_stop fuel (show decls.hasSuffix suffix id = true from hid)]
      · rw [if_neg hid]
        have hid' : decls.hasSuffix suffix id = false := Bool.eq_false_iff.mpr hid
        cases hbase : (decls.structs id).base with
        | none =>
            rw [follow_end fuel hid' (base_none hbase)]
        | some next =>
            rw [follow_next fuel hid' (base_some hbase)]
            exact ih next.structure

theorem baseProjectionPath_eq (fuel : Nat) (current base : decls.StructId) (path : List String) :
    (decls.baseProjectionPath fuel current base path).map Option.isSome =
      (follow decls.base (decls.isBase base) fuel current).map Option.isSome := by
  induction fuel generalizing current path with
  | zero => rfl
  | succ fuel ih =>
      rw [baseProjectionPath]
      by_cases hcurrent : current = base
      · rw [if_pos hcurrent, hcurrent, follow_stop fuel (isBase_self _)]
        rfl
      · rw [if_neg hcurrent]
        cases hbase : (decls.structs current).base with
        | none =>
            rw [follow_end fuel (isBase_of_ne hcurrent) (base_none hbase)]
            rfl
        | some next =>
            rw [follow_next fuel (isBase_of_ne hcurrent) (base_some hbase)]
            exact ih next.structure _

theorem projectLoop_eq (fuel : Nat) (current : decls.StructId) (type : TypeRef)
    (target : decls.StructId) :
    (decls.projectLoop fuel current type target).map Option.isSome =
      (follow decls.base (decls.isBase target) fuel current).map Option.isSome := by
  induction fuel generalizing current type with
  | zero => rfl
  | succ fuel ih =>
      rw [projectLoop]
      by_cases hcurrent : current = target
      · rw [if_pos hcurrent, hcurrent, follow_stop fuel (isBase_self _)]
        rfl
      · rw [if_neg hcurrent]
        cases hbase : (decls.structs current).base with
        | none =>
            rw [follow_end fuel (isBase_of_ne hcurrent) (base_none hbase)]
            rfl
        | some next =>
            rw [follow_next fuel (isBase_of_ne hcurrent) (base_some hbase)]
            exact ih next.structure _

/-- The projection of a declared type starts at its declaration. -/
theorem projectUserTypeToBase_eq (fuel : Nat) (id : decls.StructId) (arguments : List TypeRef)
    (target : decls.StructId) :
    decls.projectUserTypeToBase fuel (userType (decls.structs id) arguments) target =
      decls.projectLoop fuel id (userType (decls.structs id) arguments) target := by
  have hpath := decls.structByPath_path id
  unfold projectUserTypeToBase userType
  cases (decls.structs id).kind with
  | «struct» =>
      simp only [TypeRef.canonicalRef, TypeRef.userTypePathSegments, Option.bind_some, hpath]
  | «class» =>
      simp only [TypeRef.canonicalRef, TypeRef.userTypePathSegments, Option.bind_some, hpath]
  | interface =>
      simp only [TypeRef.canonicalRef, TypeRef.userTypePathSegments, Option.bind_some, hpath]

theorem lookupClassMemberSet_eq (fuel : Nat) (current : decls.StructId) (type : TypeRef)
    (name : String) :
    (decls.lookupClassMemberSet fuel current type name).map Option.isSome =
      (follow decls.base (decls.declaresMember name) fuel current).map
        Option.isSome := by
  induction fuel generalizing current type with
  | zero => rfl
  | succ fuel ih =>
      rw [lookupClassMemberSet]
      by_cases hmembers : (!(decls.directMembers current name).isEmpty) = true
      · rw [if_pos hmembers,
          follow_stop fuel (show decls.declaresMember name current = true from hmembers)]
        rfl
      · rw [if_neg hmembers]
        have hmembers' : decls.declaresMember name current = false := Bool.eq_false_iff.mpr hmembers
        cases hbase : (decls.structs current).base with
        | none =>
            rw [follow_end fuel hmembers' (base_none hbase)]
            rfl
        | some next =>
            rw [follow_next fuel hmembers' (base_some hbase)]
            exact ih next.structure _

theorem fieldMatches_eq (fuel : Nat) (id : decls.StructId) (arguments : List TypeRef) (name : String)
    (path : List String) (found : List decls.StructFieldLookup) :
    (decls.fieldMatches fuel id arguments name path found).isSome =
      (follow decls.base (fun _ ↦ false) fuel id).isSome := by
  induction fuel generalizing id arguments path found with
  | zero => rfl
  | succ fuel ih =>
      rw [fieldMatches]
      cases hbase : (decls.structs id).base with
      | none =>
          rw [follow_end fuel rfl (base_none hbase)]
          rfl
      | some next =>
          rw [follow_next fuel rfl (base_some hbase)]
          exact ih next.structure _ _ _

theorem fieldFrom_eq (fuel : Nat) (id : decls.StructId) (arguments : List TypeRef) (name : String)
    (path : List String) :
    (decls.fieldFrom fuel id arguments name path).map Option.isSome =
      (follow decls.base (decls.declaresField name) fuel id).map Option.isSome := by
  induction fuel generalizing id arguments path with
  | zero => rfl
  | succ fuel ih =>
      rw [fieldFrom]
      cases hfield : decls.directField id name with
      | some field =>
          rw [follow_stop fuel (by rw [declaresField, hfield]; rfl)]
          rfl
      | none =>
          have hnone : decls.declaresField name id = false := by rw [declaresField, hfield]; rfl
          cases hbase : (decls.structs id).base with
          | none =>
              rw [follow_end fuel hnone (base_none hbase)]
              rfl
          | some next =>
              rw [follow_next fuel hnone (base_some hbase)]
              exact ih next.structure _ _

/-! ## 4. Where the walks end -/

/-- A loop that stops where the walk along the bases stops. -/
theorem ends_iff {β : Type} {loop : Nat → Option (Option β)} {stop : decls.StructId → Bool}
    {id : decls.StructId}
    (h : ∀ fuel, (loop fuel).map Option.isSome =
      (follow decls.base stop fuel id).map Option.isSome) :
    Terminates loop ↔ (∃ x, decls.InheritsFrom id x ∧ stop x = true) ∨ ¬decls.Cyclic id := by
  have hsame : ∀ fuel, (loop fuel).isSome = (follow decls.base stop fuel id).isSome := by
    intro fuel
    rw [← Option.isSome_map, h fuel, Option.isSome_map]
  have hiff : Terminates loop ↔ Terminates fun fuel ↦ follow decls.base stop fuel id := by
    simp only [Terminates, hsame]
  rw [hiff, follow_terminates_iff]
  rfl

theorem exceptionCovers_ends_iff (base thrown : decls.StructId) :
    Terminates (fun fuel ↦ decls.exceptionCovers fuel base thrown) ↔
      decls.InheritsFrom thrown base ∨ ¬decls.Cyclic thrown := by
  have hiff : Terminates (fun fuel ↦ decls.exceptionCovers fuel base thrown) ↔
      Terminates fun fuel ↦ follow decls.base (decls.isBase base) fuel thrown := by
    simp only [Terminates, exceptionCovers_eq, Option.isSome_map]
  have hbase : (∃ x, Reaches decls.base thrown x ∧ decls.isBase base x = true) ↔
      decls.InheritsFrom thrown base := by
    constructor
    · rintro ⟨x, hx, hstop⟩
      rwa [← (of_decide_eq_true hstop : x = base)]
    · exact fun h ↦ ⟨base, h, isBase_self base⟩
  rw [hiff, follow_terminates_iff, hbase]
  rfl

theorem findBaseBySuffix_ends_iff (id : decls.StructId) (suffix : List String) :
    Terminates (fun fuel ↦ decls.findBaseBySuffix fuel id suffix) ↔
      (∃ x, decls.InheritsFrom id x ∧ decls.hasSuffix suffix x = true) ∨ ¬decls.Cyclic id :=
  ends_iff fun fuel ↦ by rw [findBaseBySuffix_eq]

theorem lookupClassMemberSet_ends_iff (id : decls.StructId) (type : TypeRef) (name : String) :
    Terminates (fun fuel ↦ decls.lookupClassMemberSet fuel id type name) ↔
      (∃ x, decls.InheritsFrom id x ∧ decls.declaresMember name x = true) ∨ ¬decls.Cyclic id :=
  ends_iff fun fuel ↦ lookupClassMemberSet_eq fuel id type name

/-! ### Fields -/

theorem lookupStructField_plain (fuel : Nat) (id : decls.StructId) (arguments : List TypeRef)
    (name : String) :
    (decls.lookupStructField fuel id arguments [name]).isSome =
      (follow decls.base (fun _ ↦ false) fuel id).isSome := by
  rw [← fieldMatches_eq fuel id arguments name [] []]
  show (decls.fieldMatches fuel id arguments name [] [] >>= fun found ↦
    some (if found.length = 1 then found.head? else none)).isSome = _
  cases decls.fieldMatches fuel id arguments name [] [] with
  | none => rfl
  | some found => rfl

/-- A plain name is looked up along all bases: nothing stops the loop. -/
theorem lookupStructField_plain_ends_iff (id : decls.StructId) (arguments : List TypeRef)
    (name : String) :
    Terminates (fun fuel ↦ decls.lookupStructField fuel id arguments [name]) ↔ ¬decls.Cyclic id := by
  have hsame : Terminates (fun fuel ↦ decls.lookupStructField fuel id arguments [name]) ↔
      Terminates fun fuel ↦ follow decls.base (fun _ ↦ false) fuel id := by
    simp only [Terminates, lookupStructField_plain]
  rw [hsame, follow_terminates_iff]
  constructor
  · rintro (⟨x, -, hx⟩ | h)
    · cases hx
    · exact h
  · exact .inr

/-- The four steps of a lookup with a qualification. -/
theorem lookupStructField_qualified (fuel : Nat) (id : decls.StructId) (arguments : List TypeRef)
    {qualification : List String} (name : String) (hne : qualification ≠ []) :
    decls.lookupStructField fuel id arguments (qualification ++ [name]) =
      (decls.findBaseBySuffix fuel id qualification).bind fun found ↦
        match found with
        | none => some none
        | some target =>
            (decls.baseProjectionPath fuel id target []).bind fun path ↦
              match path with
              | none => some none
              | some path =>
                  (decls.projectLoop fuel id (userType (decls.structs id) arguments) target).bind
                    fun type ↦
                      match type with
                      | none => some none
                      | some type => decls.fieldFrom fuel target type.userTypeArguments name path := by
  have hempty : qualification.isEmpty = false := by simpa using hne
  unfold lookupStructField
  rw [List.getLast?_concat, List.dropLast_concat]
  simp only [hempty, Bool.false_eq_true, if_false, ← projectUserTypeToBase_eq]
  -- a step that finds nothing ends the lookup, and the next one is not made
  cases decls.findBaseBySuffix fuel id qualification with
  | none => rfl
  | some found =>
      cases found with
      | none => rfl
      | some target =>
          show (decls.baseProjectionPath fuel id target []).bind _ =
            (decls.baseProjectionPath fuel id target []).bind _
          cases decls.baseProjectionPath fuel id target [] with
          | none => rfl
          | some path =>
              cases path with
              | none => rfl
              | some path =>
                  show (decls.projectUserTypeToBase fuel _ target).bind _ =
                    (decls.projectUserTypeToBase fuel _ target).bind _
                  cases decls.projectUserTypeToBase fuel (userType (decls.structs id) arguments)
                    target with
                  | none => rfl
                  | some type =>
                      cases type with
                      | none => rfl
                      | some type => rfl

theorem map_isSome_some {β : Type} {r : Option (Option β)} (h : r.map Option.isSome = some true) :
    ∃ b, r = some (some b) := by
  match r, h with
  | some (some b), _ => exact ⟨b, rfl⟩

/-- Once the target is found, the lookup ends where the loop for its fields ends. -/
theorem lookupStructField_found {fuel : Nat} {id target : decls.StructId}
    (arguments : List TypeRef) {qualification : List String} (name : String)
    (hne : qualification ≠ [])
    (hfound : decls.findBaseBySuffix fuel id qualification = some (some target))
    (hreached : follow decls.base (decls.isBase target) fuel id = some (some target)) :
    (decls.lookupStructField fuel id arguments (qualification ++ [name])).isSome =
      (follow decls.base (decls.declaresField name) fuel target).isSome := by
  have hprojection := baseProjectionPath_eq fuel id target []
  rw [hreached] at hprojection
  obtain ⟨path, hpath⟩ := map_isSome_some hprojection
  have hproject := projectLoop_eq fuel id (userType (decls.structs id) arguments) target
  rw [hreached] at hproject
  obtain ⟨type, htype⟩ := map_isSome_some hproject
  rw [lookupStructField_qualified fuel id arguments name hne, hfound, Option.bind_some]
  simp only [hpath, htype, Option.bind_some]
  rw [← Option.isSome_map, fieldFrom_eq, Option.isSome_map]

/-- A walk that is to stop at a type ends there. -/
theorem follow_isBase {id target : decls.StructId} (h : decls.InheritsFrom id target) :
    ∃ fuel, follow decls.base (decls.isBase target) fuel id = some (some target) := by
  obtain ⟨x, hx⟩ := First.of_reaches h (isBase_self target)
  have hsame : x = target := of_decide_eq_true hx.stops
  obtain ⟨fuel, hfuel⟩ := hx.follows
  exact ⟨fuel, by rw [hfuel, hsame]⟩

theorem follow_isBase_of_lookup {fuel : Nat} {id target : decls.StructId} (arguments : List TypeRef)
    {qualification : List String} (name : String) (hne : qualification ≠ [])
    (hfound : decls.findBaseBySuffix fuel id qualification = some (some target))
    (hreaches : decls.InheritsFrom id target)
    (h : (decls.lookupStructField fuel id arguments (qualification ++ [name])).isSome = true) :
    follow decls.base (decls.isBase target) fuel id = some (some target) := by
  rw [lookupStructField_qualified fuel id arguments name hne, hfound, Option.bind_some] at h
  have hprojection := baseProjectionPath_eq fuel id target []
  cases hfollow : follow decls.base (decls.isBase target) fuel id with
  | none =>
      rw [hfollow] at hprojection
      have hnone : decls.baseProjectionPath fuel id target [] = none :=
        Option.map_eq_none_iff.mp hprojection
      simp only [hnone, Option.bind_none] at h
      cases h
  | some r =>
      cases r with
      | none =>
          have hmissed := (follow_ended hfollow).2 target hreaches
          rw [isBase_self] at hmissed
          cases hmissed
      | some x =>
          have hsame : x = target := of_decide_eq_true (follow_first hfollow).stops
          rw [hsame]

/-- A lookup with a qualification ends iff the bases run into no cycle, or the first base of that
name has one with the field. -/
theorem lookupStructField_qualified_ends_iff (id : decls.StructId) (arguments : List TypeRef)
    {qualification : List String} (name : String) (hne : qualification ≠ []) :
    Terminates (fun fuel ↦ decls.lookupStructField fuel id arguments (qualification ++ [name])) ↔
      (∃ target x, First decls.base (decls.hasSuffix qualification) id target ∧
        decls.InheritsFrom target x ∧ decls.declaresField name x = true) ∨ ¬decls.Cyclic id := by
  -- the bounds of the four steps together
  have hends : ∀ target, First decls.base (decls.hasSuffix qualification) id target →
      (Terminates fun fuel ↦ follow decls.base (decls.declaresField name) fuel target) →
      Terminates fun fuel ↦ decls.lookupStructField fuel id arguments (qualification ++ [name]) := by
    intro target htarget hfield
    obtain ⟨fuel₁, hfound⟩ := htarget.follows
    obtain ⟨fuel₂, hreached⟩ := follow_isBase htarget.reaches
    obtain ⟨fuel₃, r, hr⟩ := hfield.some
    have hle₁ : fuel₁ ≤ fuel₁ + fuel₂ + fuel₃ := by omega
    have hle₂ : fuel₂ ≤ fuel₁ + fuel₂ + fuel₃ := by omega
    have hle₃ : fuel₃ ≤ fuel₁ + fuel₂ + fuel₃ := by omega
    refine ⟨fuel₁ + fuel₂ + fuel₃, ?_⟩
    show (decls.lookupStructField (fuel₁ + fuel₂ + fuel₃) id arguments
      (qualification ++ [name])).isSome = true
    rw [lookupStructField_found arguments name hne
      (by rw [findBaseBySuffix_eq]; exact follow_mono hle₁ hfound) (follow_mono hle₂ hreached),
      follow_mono hle₃ hr]
    rfl
  constructor
  · rintro ⟨fuel, hfuel⟩
    change (decls.lookupStructField fuel id arguments (qualification ++ [name])).isSome = true at hfuel
    cases hfound : decls.findBaseBySuffix fuel id qualification with
    | none =>
        rw [lookupStructField_qualified fuel id arguments name hne, hfound] at hfuel
        cases hfuel
    | some found =>
        rw [findBaseBySuffix_eq] at hfound
        cases found with
        | none => exact .inr (follow_ended hfound).1
        | some target =>
            have htarget := follow_first hfound
            rw [← findBaseBySuffix_eq] at hfound
            have hreached := follow_isBase_of_lookup arguments name hne hfound htarget.reaches hfuel
            rw [lookupStructField_found arguments name hne hfound hreached] at hfuel
            have hfield : Terminates fun fuel ↦
                follow decls.base (decls.declaresField name) fuel target := ⟨fuel, hfuel⟩
            rcases follow_terminates_iff.mp hfield with ⟨x, hx, hstop⟩ | hcyclic
            · exact .inl ⟨target, x, htarget, hx, hstop⟩
            · exact .inr fun h ↦ hcyclic ((runsIntoCycle_of_reaches htarget.reaches).mp h)
  · rintro (⟨target, x, htarget, hx, hfield⟩ | hcyclic)
    · exact hends target htarget (follow_terminates_iff.mpr (.inl ⟨x, hx, hfield⟩))
    · have hsearch : Terminates fun fuel ↦ follow decls.base (decls.hasSuffix qualification) fuel id :=
        follow_of_not_runsIntoCycle hcyclic
      obtain ⟨fuel, found, hfound⟩ := hsearch.some
      cases found with
      | none =>
          apply Terminates.of_some fuel
          rw [lookupStructField_qualified fuel id arguments name hne, findBaseBySuffix_eq, hfound]
          rfl
      | some target =>
          have htarget := follow_first hfound
          apply hends target htarget
          apply follow_of_not_runsIntoCycle
          exact fun h ↦ hcyclic ((runsIntoCycle_of_reaches htarget.reaches).mpr h)

end Declarations

end Stainless.Compiler
