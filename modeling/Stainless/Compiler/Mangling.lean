import Mathlib
import Stainless.Compiler.TypeRef
import Stainless.Reasoning.Delimited

/-!
# Mangled names

The name that a function gets in the generated Rust, made from its path and the types of its parameters.
-/

open Reasoning

namespace Stainless.Compiler

/-! ## 1. The encoding -/

def Scalar.spelling : Scalar → String
  | bool => "bool"
  | char => "char"
  | i8 => "i8"
  | i16 => "i16"
  | i32 => "i32"
  | i64 => "i64"
  | i128 => "i128"
  | isize => "isize"
  | u8 => "u8"
  | u16 => "u16"
  | u32 => "u32"
  | u64 => "u64"
  | u128 => "u128"
  | usize => "usize"
  | f32 => "f32"
  | f64 => "f64"

/-- `path.split("::")`, from the left. -/
def splitPath : List Char → List (List Char)
  | ':' :: ':' :: rest => [] :: splitPath rest
  | c :: rest =>
      match splitPath rest with
      | [] => [[c]]
      | segment :: segments => (c :: segment) :: segments
  | [] => [[]]

def encodeSegment (segment : String) : String :=
  "_" ++ toString segment.utf8ByteSize ++ "_" ++ segment

def encodeEach : List String → String
  | [] => ""
  | segment :: segments => encodeSegment segment ++ encodeEach segments

def encodeSegments (segments : List String) : String :=
  toString segments.length ++ encodeEach segments

def encodePath (path : String) : String :=
  encodeSegments ((splitPath path.toList).map String.ofList)

def StoredFunctionKind.tag : StoredFunctionKind → String
  | shared => "fn_"
  | mutable => "fnmut_"

def PointerKind.tag : PointerKind → String
  | unique => "unique_"
  | uniqueNullable => "unique_nullable_"
  | shared => "shared_"
  | sharedNullable => "shared_nullable_"
  | weak => "weak_"
  | atomic => "atomic_"
  | atomicNullable => "atomic_nullable_"

def referenceTag (mutable : Bool) : String := if mutable then "mr_" else "sr_"

mutual

/-- A reference is encoded as its target, so `canonical` on an argument changes nothing. -/
def encodeType : TypeRef → String
  | .void => "void"
  | .scalar type => type.spelling
  | .struct path arguments => "s_" ++ encodeSegments path ++ encodeArguments arguments
  | .class path arguments => "c_" ++ encodeSegments path ++ encodeArguments arguments
  | .interface path arguments => "i_" ++ encodeSegments path ++ encodeArguments arguments
  | .native path [] => "n_" ++ encodePath path
  | .native path (argument :: arguments) =>
      "g_" ++ encodePath path ++ encodeArguments (argument :: arguments)
  | .function kind parameters returnType =>
      kind.tag ++ toString parameters.length ++ encodeSignature parameters ++ "_r_" ++
        encodeType returnType
  | .pointer kind target => kind.tag ++ encodeType target
  | .mutex target => "mutex_" ++ encodeType target
  | .mutexGuard target => "mutex_guard_" ++ encodeType target
  | .rwLock target => "rwlock_" ++ encodeType target
  | .rwLockReadGuard target => "rwlock_read_guard_" ++ encodeType target
  | .rwLockWriteGuard target => "rwlock_write_guard_" ++ encodeType target
  | .condition => "condition"
  | .threadHandle target => "thread_handle_" ++ encodeType target
  | .threadScope => "thread_scope"
  | .scopedThreadHandle target => "scoped_thread_handle_" ++ encodeType target
  | .reference _ target => encodeType target
  | .parameter name => "t_" ++ toString name.utf8ByteSize ++ "_" ++ name
  | .constUsize value => "n_" ++ toString value
  | .constParameter name => "c_" ++ toString name.utf8ByteSize ++ "_" ++ name
  | .array element length => "array_" ++ encodeType element ++ "_" ++ encodeType length
  | .tuple elements => "tuple_" ++ toString elements.length ++ "_" ++ encodeElements elements
  | .error => "error"
  | .callback .. => "unknown"

def encodeArguments : List TypeRef → String
  | [] => ""
  | argument :: arguments =>
      "_a_" ++ toString (arguments.length + 1) ++ encodeSeparated (argument :: arguments)

/-- Each type behind an underscore. -/
def encodeSeparated : List TypeRef → String
  | [] => ""
  | type :: types => "_" ++ encodeType type ++ encodeSeparated types

/-- `encode_signature_type` of each parameter, behind an underscore. -/
def encodeSignature : List TypeRef → String
  | [] => ""
  | .reference mutable target :: parameters =>
      "_" ++ (referenceTag mutable ++ encodeType target) ++ encodeSignature parameters
  | parameter :: parameters => "_" ++ encodeType parameter ++ encodeSignature parameters

def encodeElements : List TypeRef → String
  | [] => ""
  | type :: types => encodeType type ++ encodeElements types

end

def functionName (path : List String) (parameters : List TypeRef) : String :=
  "__stainless_v1_f_" ++ encodeSegments path ++ "__p_" ++ toString parameters.length ++
    encodeSeparated (parameters.map TypeRef.canonicalRef)

/-! ## 2. What is encoded -/

/-- `[A-Za-z_][A-Za-z0-9_]*` -/
def isIdentifier (name : String) : Bool :=
  match name.toList with
  | [] => false
  | c :: rest => (c.isAlpha || c = '_') && rest.all fun c ↦ c.isAlphanum || c = '_'

mutual

/-- No contextual callback, and a reference at most as a parameter of a stored function. The name of a
constant parameter is one that the lexer reads. -/
def storable : TypeRef → Bool
  | .callback .. | .reference .. => false
  | .constParameter name => isIdentifier name
  | .array element length => storable element && storable length
  | .tuple elements => storableAll elements
  | .native _ arguments | .struct _ arguments | .class _ arguments | .interface _ arguments =>
      storableAll arguments
  | .function _ parameters returnType => signableAll parameters && storable returnType
  | .pointer _ target | .mutex target | .mutexGuard target | .rwLock target
  | .rwLockReadGuard target | .rwLockWriteGuard target | .threadHandle target
  | .scopedThreadHandle target => storable target
  | .error | .void | .scalar _ | .parameter _ | .constUsize _ | .condition | .threadScope => true

def storableAll : List TypeRef → Bool
  | [] => true
  | type :: types => storable type && storableAll types

def signableAll : List TypeRef → Bool
  | [] => true
  | .reference _ target :: types => storable target && signableAll types
  | type :: types => storable type && signableAll types

end

/-- The type of a parameter. -/
def signable : TypeRef → Bool
  | .reference _ target => storable target
  | type => storable type

def encodeSignatureType : TypeRef → String
  | .reference mutable target => referenceTag mutable ++ encodeType target
  | type => encodeType type

theorem signableAll_cons (type : TypeRef) (types : List TypeRef) :
    signableAll (type :: types) = (signable type && signableAll types) := by
  cases type <;> simp only [signableAll, signable]

theorem encodeSignature_cons (type : TypeRef) (types : List TypeRef) :
    encodeSignature (type :: types) = "_" ++ encodeSignatureType type ++ encodeSignature types := by
  cases type <;> simp only [encodeSignature, encodeSignatureType]

theorem signable_of_mem {types : List TypeRef} (h : signableAll types) :
    ∀ type ∈ types, signable type := by
  induction types with
  | nil => exact fun _ h ↦ nomatch h
  | cons first types ih =>
      rw [signableAll_cons, Bool.and_eq_true] at h
      intro type htype
      cases List.mem_cons.mp htype with
      | inl hsame =>
          rw [hsame]
          exact h.1
      | inr hrest => exact ih h.2 type hrest

theorem storable_of_mem {types : List TypeRef} (h : storableAll types) :
    ∀ type ∈ types, storable type := by
  induction types with
  | nil => exact fun _ h ↦ nomatch h
  | cons first types ih =>
      rw [storableAll, Bool.and_eq_true] at h
      intro type htype
      cases List.mem_cons.mp htype with
      | inl hsame =>
          rw [hsame]
          exact h.1
      | inr hrest => exact ih h.2 type hrest

theorem signable_of_storable {type : TypeRef} (h : storable type) : signable type := by
  cases type with
  | reference => cases h
  | _ => exact h

theorem encodeSignatureType_eq {type : TypeRef} (h : storable type) :
    encodeSignatureType type = encodeType type := by
  cases type with
  | reference => cases h
  | _ => rfl

/-! ## 3. Tags -/

/-- The forms of types that share a tag. -/
inductive Kind
  | void
  | scalar (type : Scalar)
  | «struct»
  | classOrConstParameter
  | interface
  /-- A constant is tagged like a path without arguments. -/
  | native (generic : Bool)
  | function (kind : StoredFunctionKind)
  | pointer (kind : PointerKind)
  | mutex
  | mutexGuard
  | rwLock
  | rwLockReadGuard
  | rwLockWriteGuard
  | condition
  | threadHandle
  | threadScope
  | scopedThreadHandle
  | reference (mutable : Bool)
  | parameter
  | array
  | tuple
  | error
  | callback
deriving DecidableEq

namespace Kind

def tag : Kind → String
  | void => "void"
  | scalar type => type.spelling
  | «struct» => "s_"
  | classOrConstParameter => "c_"
  | interface => "i_"
  | native generic => if generic then "g_" else "n_"
  | function kind => kind.tag
  | pointer kind => kind.tag
  | mutex => "mutex_"
  | mutexGuard => "mutex_guard_"
  | rwLock => "rwlock_"
  | rwLockReadGuard => "rwlock_read_guard_"
  | rwLockWriteGuard => "rwlock_write_guard_"
  | condition => "condition"
  | threadHandle => "thread_handle_"
  | threadScope => "thread_scope"
  | scopedThreadHandle => "scoped_thread_handle_"
  | reference mutable => referenceTag mutable
  | parameter => "t_"
  | array => "array_"
  | tuple => "tuple_"
  | error => "error"
  | callback => "unknown"

/-- What goes on a tag that begins with another one. -/
def extensions : List (List Char) := [['n', 'u'], ['g', 'u'], ['r', 'e'], ['w', 'r']]

/-- The tags that other tags begin with. -/
def wraps : Kind → Bool
  | mutex | rwLock | pointer .unique | pointer .shared | pointer .atomic => true
  | _ => false

def all : List Kind :=
  [void, «struct», classOrConstParameter, interface, mutex, mutexGuard, rwLock, rwLockReadGuard,
    rwLockWriteGuard, condition, threadHandle, threadScope, scopedThreadHandle, parameter, array, tuple, error,
    callback, native false, native true, function .shared, function .mutable, reference false,
    reference true] ++
  [.bool, .char, .i8, .i16, .i32, .i64, .i128, .isize, .u8, .u16, .u32, .u64, .u128, .usize, .f32,
    .f64].map scalar ++
  [.unique, .uniqueNullable, .shared, .sharedNullable, .weak, .atomic, .atomicNullable].map pointer

theorem mem_all (k : Kind) : k ∈ all := by
  cases k with
  | scalar type => cases type <;> decide
  | native generic => cases generic <;> decide
  | function kind => cases kind <;> decide
  | pointer kind => cases kind <;> decide
  | reference mutable => cases mutable <;> decide
  | _ => decide

/-- One tag begins with another only where what is wrapped begins with a type. -/
theorem tag_prefix (k k' : Kind) (h : k.tag.toList.isPrefixOf k'.tag.toList = true) :
    k = k' ∨ k.wraps = true ∧ (k'.tag.toList.drop k.tag.toList.length).take 2 ∈ extensions := by
  have hall : ∀ k ∈ all, ∀ k' ∈ all, k.tag.toList.isPrefixOf k'.tag.toList = true →
      k = k' ∨ k.wraps = true ∧ (k'.tag.toList.drop k.tag.toList.length).take 2 ∈ extensions := by
    decide +kernel
  exact hall k (mem_all k) k' (mem_all k') h

/-- How the code of a type begins. -/
def opens : List Char → Bool
  | c :: c' :: _ => !c.isDigit && c != '_' && [c, c'] ∉ extensions && [c, c'] != ['a', '_']
  | _ => false

theorem opens_append {text : List Char} (h : opens text = true) (rest : List Char) :
    opens (text ++ rest) = true := by
  cases text with
  | nil => cases h
  | cons c text =>
      cases text with
      | nil => cases h
      | cons c' text => exact h

theorem not_opens {text : List Char} (h : text.take 2 ∈ extensions) (rest : List Char) :
    opens (text ++ rest) = false := by
  match text with
  | [] | [_] => simp [extensions] at h
  | c :: c' :: text =>
      have hext : [c, c'] ∈ extensions := h
      simp [opens, hext]

theorem tag_opens (k : Kind) : opens k.tag.toList = true := by
  have hall : ∀ k ∈ all, opens k.tag.toList = true := by decide +kernel
  exact hall k (mem_all k)

end Kind

def TypeRef.kind : TypeRef → Kind
  | void => .void
  | scalar type => .scalar type
  | «struct» .. => .struct
  | «class» .. | constParameter _ => .classOrConstParameter
  | interface .. => .interface
  | native _ arguments => .native !arguments.isEmpty
  | constUsize _ => .native false
  | function kind .. => .function kind
  | pointer kind _ => .pointer kind
  | mutex _ => .mutex
  | mutexGuard _ => .mutexGuard
  | rwLock _ => .rwLock
  | rwLockReadGuard _ => .rwLockReadGuard
  | rwLockWriteGuard _ => .rwLockWriteGuard
  | condition => .condition
  | threadHandle _ => .threadHandle
  | threadScope => .threadScope
  | scopedThreadHandle _ => .scopedThreadHandle
  | reference mutable _ => .reference mutable
  | parameter _ => .parameter
  | array .. => .array
  | tuple _ => .tuple
  | error => .error
  | callback .. => .callback

/-- What comes behind the tag. -/
def TypeRef.body : TypeRef → String
  | «struct» path arguments | «class» path arguments | interface path arguments =>
      encodeSegments path ++ encodeArguments arguments
  | native path arguments => encodePath path ++ encodeArguments arguments
  | function _ parameters returnType =>
      toString parameters.length ++ encodeSignature parameters ++ "_r_" ++ encodeType returnType
  | pointer _ target | mutex target | mutexGuard target | rwLock target | rwLockReadGuard target
  | rwLockWriteGuard target | threadHandle target | scopedThreadHandle target | reference _ target =>
      encodeType target
  | parameter name | constParameter name => toString name.utf8ByteSize ++ "_" ++ name
  | constUsize value => toString value
  | array element length => encodeType element ++ "_" ++ encodeType length
  | tuple elements => toString elements.length ++ "_" ++ encodeElements elements
  | void | scalar _ | condition | threadScope | error | callback .. => ""

theorem encodeSignatureType_split (type : TypeRef) :
    encodeSignatureType type = type.kind.tag ++ type.body := by
  cases type with
  | native path arguments =>
      cases arguments with
      | nil => simp [encodeSignatureType, encodeType, encodeArguments, TypeRef.kind, TypeRef.body, Kind.tag]
      | cons => simp [encodeSignatureType, encodeType, TypeRef.kind, TypeRef.body, Kind.tag,
          String.append_assoc]
  | _ => simp [encodeSignatureType, encodeType, TypeRef.kind, TypeRef.body, Kind.tag, String.append_assoc]

/-! ## 4. Where a code ends -/

/-- The characters of a parameter's type in a name. -/
def code (type : TypeRef) : List Char := (encodeSignatureType type).toList

theorem code_eq (type : TypeRef) : code type = type.kind.tag.toList ++ type.body.toList := by
  rw [code, encodeSignatureType_split, String.toList_append]

theorem code_opens (type : TypeRef) : Kind.opens (code type) = true := by
  rw [code_eq]
  exact Kind.opens_append (Kind.tag_opens _) _

/-- What can follow a type: no digit, no number and no arguments. -/
structure Ends (text : List Char) : Prop where
  noDigit : NoDigit text
  noNumber : ∀ c rest, text = '_' :: c :: rest → c.isDigit = false
  noArguments : ∀ rest, text ≠ '_' :: 'a' :: '_' :: rest

theorem ends_nil : Ends [] := ⟨noDigit_nil, fun _ _ h ↦ (nomatch h), fun _ h ↦ (nomatch h)⟩

theorem ends_of_opens {text : List Char} (h : Kind.opens text = true) : Ends text := by
  match text with
  | c :: c' :: rest =>
      simp only [Kind.opens, Bool.and_eq_true, Bool.not_eq_true', bne_iff_ne, decide_eq_true_eq] at h
      refine ⟨noDigit_cons h.1.1.1 _, ?_, ?_⟩
      · intro c₁ rest₁ heq
        injection heq with hc
        exact absurd hc h.1.1.2
      · intro rest₁ heq
        injection heq with hc
        exact absurd hc h.1.1.2

/-- A type behind an underscore. -/
theorem ends_separated {text : List Char} (h : Kind.opens text = true) : Ends ('_' :: text) := by
  match text with
  | c :: c' :: rest =>
      simp only [Kind.opens, Bool.and_eq_true, Bool.not_eq_true', bne_iff_ne, decide_eq_true_eq] at h
      refine ⟨noDigit_cons (by decide) _, ?_, ?_⟩
      · intro c₁ rest₁ heq
        injection heq with _ heq
        injection heq with hc _
        rw [← hc]
        exact h.1.1.1
      · intro rest₁ heq
        injection heq with _ heq
        injection heq with hc heq
        injection heq with hc' _
        exact h.2 (by rw [hc, hc'])

/-- `a` can be told from all other types of parameters. -/
def Told (a : TypeRef) : Prop := Delimited code (fun type ↦ signable type = true) Ends a

/-! ## 5. The parts of a code -/

theorem text_append (text more : String) (x : List Char) :
    (text ++ more).toList ++ x = text.toList ++ (more.toList ++ x) := by
  rw [String.toList_append, List.append_assoc]

theorem segment_delimited (segment : String) :
    Delimited (fun segment ↦ (encodeSegment segment).toList) (fun _ ↦ True) (fun _ ↦ True) segment := by
  intro other _ x y _ _ h
  simp only [encodeSegment, String.toList_append, List.append_assoc] at h
  have hnumber := List.append_cancel_left h
  have ⟨hsize, hname⟩ := decimal_delimited (noDigit_cons (by decide) _) (noDigit_cons (by decide) _) hnumber
  exact name_delimited hsize (List.cons.inj hname).2

theorem encodeEach_eq (segments : List String) :
    (encodeEach segments).toList = segments.flatMap fun segment ↦ (encodeSegment segment).toList := by
  induction segments with
  | nil => rfl
  | cons segment segments ih => rw [encodeEach, String.toList_append, ih, List.flatMap_cons]

theorem noDigit_segments (segments : List String) {x : List Char} (hx : NoDigit x) :
    NoDigit ((encodeEach segments).toList ++ x) := by
  cases segments with
  | nil => exact hx
  | cons segment segments =>
      have hcons : (encodeEach (segment :: segments)).toList ++ x =
          '_' :: ((toString segment.utf8ByteSize ++ "_" ++ segment ++ encodeEach segments).toList ++ x) := by
        simp [encodeEach, encodeSegment, String.toList_append]
      rw [hcons]
      exact noDigit_cons (by decide) _

theorem segments_delimited (segments : List String) :
    Delimited (fun segments ↦ (encodeSegments segments).toList) (fun _ ↦ True) NoDigit segments := by
  intro other _ x y hx hy h
  simp only [encodeSegments, String.toList_append, List.append_assoc] at h
  have ⟨hlength, heach⟩ := decimal_delimited (noDigit_segments _ hx) (noDigit_segments _ hy) h
  rw [encodeEach_eq, encodeEach_eq] at heach
  exact delimited_list (fun _ _ _ _ ↦ trivial) (fun segment _ ↦ ⟨trivial, segment_delimited segment⟩)
    (fun _ _ ↦ trivial) hlength trivial trivial heach

theorem splitPath_ne_nil (path : List Char) : splitPath path ≠ [] := by
  fun_induction splitPath path <;> simp_all

theorem splitPath_join (path : List Char) : [':', ':'].intercalate (splitPath path) = path := by
  fun_induction splitPath path with
  | case1 rest ih =>
      rw [List.intercalate_cons_of_ne_nil (splitPath_ne_nil rest), ih]
      rfl
  | case2 c rest _ h => exact absurd h (splitPath_ne_nil rest)
  | case3 c rest _ segment segments h ih =>
      rw [h] at ih
      cases segments with
      | nil => simpa [List.intercalate] using ih
      | cons =>
          rw [List.intercalate_cons_of_ne_nil (by simp)] at ih ⊢
          rw [← ih]
          rfl
  | case4 => rfl

theorem path_delimited (path : String) :
    Delimited (fun path ↦ (encodePath path).toList) (fun _ ↦ True) NoDigit path := by
  intro other _ x y hx hy h
  have ⟨hsegments, hrest⟩ := segments_delimited _ _ trivial x y hx hy h
  have hsplit := (List.map_inj_right fun _ _ h ↦ String.ofList_injective h).mp hsegments
  have hpath := congrArg [':', ':'].intercalate hsplit
  rw [splitPath_join, splitPath_join] at hpath
  exact ⟨String.toList_injective hpath, hrest⟩

theorem encodeSignature_eq (types : List TypeRef) :
    (encodeSignature types).toList = types.flatMap fun type ↦ '_' :: code type := by
  induction types with
  | nil => simp [encodeSignature]
  | cons type types ih =>
      rw [encodeSignature_cons, String.toList_append, String.toList_append, ih, List.flatMap_cons, code]
      rfl

theorem encodeSeparated_eq {types : List TypeRef} (h : ∀ type ∈ types, storable type = true) :
    encodeSeparated types = encodeSignature types := by
  induction types with
  | nil => simp [encodeSeparated, encodeSignature]
  | cons type types ih =>
      rw [encodeSeparated, encodeSignature_cons, encodeSignatureType_eq (h type List.mem_cons_self),
        ih fun type htype ↦ h type (List.mem_cons_of_mem _ htype)]

theorem encodeElements_eq {types : List TypeRef} (h : ∀ type ∈ types, storable type = true) :
    (encodeElements types).toList = types.flatMap code := by
  induction types with
  | nil => simp [encodeElements]
  | cons type types ih =>
      rw [encodeElements, String.toList_append, List.flatMap_cons, code,
        encodeSignatureType_eq (h type List.mem_cons_self),
        ih fun type htype ↦ h type (List.mem_cons_of_mem _ htype)]

/-- As many parameters, each behind an underscore. -/
theorem signature_delimited {as bs : List TypeRef} (has : ∀ a ∈ as, signable a = true ∧ Told a)
    (hbs : ∀ b ∈ bs, signable b = true) (hlength : as.length = bs.length) {x y : List Char} (hx : Ends x)
    (hy : Ends y) (h : (encodeSignature as).toList ++ x = (encodeSignature bs).toList ++ y) :
    as = bs ∧ x = y := by
  have hcode : ∀ a ∈ as, signable a = true ∧
      Delimited (fun type ↦ '_' :: code type) (fun type ↦ signable type = true) Ends a := by
    intro a ha
    refine ⟨(has a ha).1, fun b hb x y hx hy h ↦ ?_⟩
    exact (has a ha).2 b hb x y hx hy (List.cons.inj h).2
  have hends : ∀ a, signable a = true → ∀ x, Ends x → Ends ('_' :: code a ++ x) :=
    fun a _ x _ ↦ ends_separated (Kind.opens_append (code_opens a) x)
  rw [encodeSignature_eq, encodeSignature_eq] at h
  exact delimited_list hends hcode hbs hlength hx hy h

theorem noDigit_signature (types : List TypeRef) {x : List Char} (hx : NoDigit x) :
    NoDigit ((encodeSignature types).toList ++ x) := by
  cases types with
  | nil => simpa [encodeSignature] using hx
  | cons type types =>
      rw [encodeSignature_eq, List.flatMap_cons, List.cons_append, List.cons_append]
      exact noDigit_cons (by decide) _

/-- How the arguments of a type go on, if it has any. -/
theorem encodeArguments_cons {argument : TypeRef} {arguments : List TypeRef}
    (h : ∀ type ∈ argument :: arguments, storable type = true) (x : List Char) :
    (encodeArguments (argument :: arguments)).toList ++ x =
      '_' :: 'a' :: '_' :: ((toString (argument :: arguments).length).toList ++
        ((encodeSignature (argument :: arguments)).toList ++ x)) := by
  rw [encodeArguments, encodeSeparated_eq h]
  simp [String.toList_append]

theorem arguments_delimited {as bs : List TypeRef} (has : ∀ a ∈ as, storable a = true ∧ Told a)
    (hbs : ∀ b ∈ bs, storable b = true) {x y : List Char} (hx : Ends x) (hy : Ends y)
    (h : (encodeArguments as).toList ++ x = (encodeArguments bs).toList ++ y) : as = bs ∧ x = y := by
  cases as with
  | nil =>
      cases bs with
      | nil =>
          simp only [encodeArguments] at h
          exact ⟨rfl, h⟩
      | cons b bs =>
          rw [encodeArguments_cons hbs] at h
          simp only [encodeArguments] at h
          exact absurd h (hx.noArguments _)
  | cons a as =>
      rw [encodeArguments_cons fun type htype ↦ (has type htype).1] at h
      cases bs with
      | nil =>
          simp only [encodeArguments] at h
          exact absurd h.symm (hy.noArguments _)
      | cons b bs =>
          rw [encodeArguments_cons hbs] at h
          have hnumber := (List.cons.inj (List.cons.inj (List.cons.inj h).2).2).2
          have ⟨hlength, hlist⟩ := decimal_delimited (noDigit_signature _ hx.noDigit)
            (noDigit_signature _ hy.noDigit) hnumber
          exact signature_delimited (fun a ha ↦ ⟨signable_of_storable (has a ha).1, (has a ha).2⟩)
            (fun b hb ↦ signable_of_storable (hbs b hb)) hlength hx hy hlist

theorem noDigit_arguments {types : List TypeRef} (h : ∀ type ∈ types, storable type = true) {x : List Char}
    (hx : NoDigit x) : NoDigit ((encodeArguments types).toList ++ x) := by
  cases types with
  | nil => simpa [encodeArguments] using hx
  | cons type types =>
      rw [encodeArguments_cons h]
      exact noDigit_cons (by decide) _

/-- The path and the arguments of a named type. -/
theorem named_delimited {α : Type} {path path' : α} {encode : α → String} {as bs : List TypeRef}
    (hpath : Delimited (fun path ↦ (encode path).toList) (fun _ ↦ True) NoDigit path)
    (has : ∀ a ∈ as, storable a = true ∧ Told a) (hbs : ∀ b ∈ bs, storable b = true) {x y : List Char}
    (hx : Ends x) (hy : Ends y)
    (h : (encode path ++ encodeArguments as).toList ++ x = (encode path' ++ encodeArguments bs).toList ++ y) :
    (path = path' ∧ as = bs) ∧ x = y := by
  simp only [String.toList_append, List.append_assoc] at h
  have ⟨hsame, hrest⟩ := hpath path' trivial _ _ (noDigit_arguments (fun a ha ↦ (has a ha).1) hx.noDigit)
    (noDigit_arguments hbs hy.noDigit) h
  have ⟨hsame', hend⟩ := arguments_delimited has hbs hx hy hrest
  exact ⟨⟨hsame, hsame'⟩, hend⟩

theorem elements_delimited {as bs : List TypeRef} (has : ∀ a ∈ as, storable a = true ∧ Told a)
    (hbs : ∀ b ∈ bs, storable b = true) (hlength : as.length = bs.length) {x y : List Char} (hx : Ends x)
    (hy : Ends y) (h : (encodeElements as).toList ++ x = (encodeElements bs).toList ++ y) :
    as = bs ∧ x = y := by
  have hcode : ∀ a ∈ as, signable a = true ∧ Delimited code (fun type ↦ signable type = true) Ends a :=
    fun a ha ↦ ⟨signable_of_storable (has a ha).1, (has a ha).2⟩
  have hends : ∀ a, signable a = true → ∀ x, Ends x → Ends (code a ++ x) :=
    fun a _ x _ ↦ ends_of_opens (Kind.opens_append (code_opens a) x)
  rw [encodeElements_eq fun a ha ↦ (has a ha).1, encodeElements_eq hbs] at h
  exact delimited_list hends hcode (fun b hb ↦ signable_of_storable (hbs b hb)) hlength hx hy h

theorem sized_delimited (name : String) :
    Delimited (fun name ↦ (toString name.utf8ByteSize ++ "_" ++ name).toList) (fun _ ↦ True) (fun _ ↦ True)
      name := by
  intro other _ x y _ _ h
  apply segment_delimited name other trivial x y trivial trivial
  simp only [encodeSegment, String.toList_append, List.append_assoc] at h ⊢
  rw [h]

/-! ## 6. Types -/

theorem body_opens {a : TypeRef} (ha : signable a = true) (hwraps : a.kind.wraps = true) :
    Kind.opens a.body.toList = true := by
  have htarget {target : TypeRef} (h : storable target = true) :
      Kind.opens (encodeType target).toList = true := by
    rw [← encodeSignatureType_eq h]
    exact code_opens target
  cases a with
  | pointer kind target => exact htarget ha
  | mutex target => exact htarget ha
  | rwLock target => exact htarget ha
  | _ => cases hwraps

theorem kind_eq {a b : TypeRef} (ha : signable a = true) (hb : signable b = true) {x y : List Char}
    (h : code a ++ x = code b ++ y) : a.kind = b.kind := by
  have hshorter {a b : TypeRef} (ha : signable a = true) {x y : List Char} (h : code a ++ x = code b ++ y)
      (hle : a.kind.tag.toList.length ≤ b.kind.tag.toList.length) : a.kind = b.kind := by
    rw [code_eq, code_eq, List.append_assoc, List.append_assoc] at h
    have ⟨more, hmore⟩ := List.prefix_of_prefix_length_le (List.prefix_append a.kind.tag.toList _)
      (h ▸ List.prefix_append b.kind.tag.toList _) hle
    cases Kind.tag_prefix _ _ (List.isPrefixOf_iff_prefix.mpr ⟨more, hmore⟩) with
    | inl hsame => exact hsame
    | inr hext =>
        -- What `a` wraps begins like no tag goes on.
        rw [← hmore, List.append_assoc] at h
        rw [← hmore, List.drop_left] at hext
        have hopens := Kind.opens_append (body_opens ha hext.1) x
        rw [List.append_cancel_left h, Kind.not_opens hext.2] at hopens
        cases hopens
  cases Nat.le_total a.kind.tag.toList.length b.kind.tag.toList.length with
  | inl hle => exact hshorter ha h hle
  | inr hle => exact (hshorter hb h.symm hle).symm

/-- A segment begins with its size. -/
theorem encodeEach_head (segment : String) (segments : List String) (x : List Char) :
    ∃ c rest, (encodeEach (segment :: segments)).toList ++ x = '_' :: c :: rest ∧ c.isDigit = true := by
  have ⟨c, rest, hsize, hdigit⟩ := decimal_head segment.utf8ByteSize
  refine ⟨c, rest ++ ('_' :: segment.toList ++ (encodeEach segments).toList ++ x), ?_, hdigit⟩
  simp only [encodeEach, encodeSegment, String.toList_append, hsize]
  simp

/-- A number is no path. -/
theorem path_ne_number {path : String} {value : Nat} {x y : List Char} (hx : NoDigit x) (hy : Ends y) :
    (encodePath path).toList ++ x ≠ (toString value).toList ++ y := by
  intro h
  simp only [encodePath, encodeSegments, String.toList_append, List.append_assoc] at h
  have hrest := (decimal_delimited (noDigit_segments _ hx) hy.noDigit h).2
  cases hsplit : splitPath path.toList with
  | nil => exact splitPath_ne_nil _ hsplit
  | cons segment segments =>
      rw [hsplit, List.map_cons] at hrest
      have ⟨c, rest, hhead, hdigit⟩ := encodeEach_head (String.ofList segment) (segments.map String.ofList) x
      rw [hhead] at hrest
      rw [hy.noNumber c rest hrest.symm] at hdigit
      cases hdigit

theorem identifier_head {name : String} (h : isIdentifier name = true) :
    ∃ c rest, name.toList = c :: rest ∧ c.isDigit = false := by
  have halpha (c : Char) (h : c.isAlpha = true) : c.isDigit = false := by
    simp only [Char.isAlpha, Char.isUpper, Char.isLower, Char.isDigit, UInt32.le_iff_toNat_le, Bool.or_eq_true,
      Bool.and_eq_true, decide_eq_true_eq, Bool.and_eq_false_iff, decide_eq_false_iff_not, ge_iff_le] at h ⊢
    have h9 : '9'.val.toNat < 'A'.val.toNat := by decide
    have h9' : '9'.val.toNat < 'a'.val.toNat := by decide
    omega
  cases hname : name.toList with
  | nil => simp [isIdentifier, hname] at h
  | cons c rest =>
      simp only [isIdentifier, hname, Bool.and_eq_true, Bool.or_eq_true, decide_eq_true_eq] at h
      refine ⟨c, rest, rfl, ?_⟩
      cases h.1 with
      | inl hletter => exact halpha c hletter
      | inr hunderscore =>
          rw [hunderscore]
          decide

/-- An identifier is no path. -/
theorem path_ne_identifier {path : List String} {name : String} (hname : isIdentifier name = true)
    {x y : List Char} (hx : NoDigit x) :
    (encodeSegments path).toList ++ x ≠ (toString name.utf8ByteSize ++ "_" ++ name).toList ++ y := by
  intro h
  simp only [encodeSegments, String.toList_append, List.append_assoc] at h
  have ⟨hsize, hrest⟩ := decimal_delimited (noDigit_segments _ hx) (noDigit_cons (by decide) _) h
  have ⟨c, rest, hhead, hletter⟩ := identifier_head hname
  cases path with
  | nil =>
      rw [String.utf8ByteSize_eq_zero_iff.mp hsize.symm] at hhead
      cases hhead
  | cons segment segments =>
      have ⟨c', rest', hhead', hdigit⟩ := encodeEach_head segment segments x
      rw [hhead', hhead] at hrest
      rw [(List.cons.inj (List.cons.inj hrest).2).1, hletter] at hdigit
      cases hdigit

/-- Every constructor, when what it holds can be told. -/
theorem told_step (a : TypeRef) (ha : signable a = true)
    (ih : ∀ type, sizeOf type < sizeOf a → signable type = true → Told type) : Told a := by
  intro b hb x y hx hy h
  -- the first letters name the constructor, so that only equal constructors are left to compare
  have hkind := kind_eq ha hb h
  rw [code_eq, code_eq, hkind, List.append_assoc, List.append_assoc] at h
  have hbody := List.append_cancel_left h
  clear h
  -- a type inside of another is smaller
  have htarget (target target' : TypeRef) (hsize : sizeOf target < sizeOf a) (h : storable target = true)
      (h' : storable target' = true) {x y : List Char} (hx : Ends x) (hy : Ends y)
      (hcode : (encodeType target).toList ++ x = (encodeType target').toList ++ y) :
      target = target' ∧ x = y := by
    apply ih target hsize (signable_of_storable h) target' (signable_of_storable h') x y hx hy
    rw [code, code, encodeSignatureType_eq h, encodeSignatureType_eq h', hcode]
  have harguments (types : List TypeRef) (hsize : sizeOf types < sizeOf a) (h : storableAll types = true) :
      ∀ type ∈ types, storable type = true ∧ Told type := by
    intro type htype
    have hstorable := storable_of_mem h type htype
    have hlt := List.sizeOf_lt_of_mem htype
    exact ⟨hstorable, ih type (by omega) (signable_of_storable hstorable)⟩
  cases a with
  | reference mutable target =>
      cases b with
      | reference mutable' target' =>
          obtain ⟨hsame, hend⟩ := htarget target target' (by simp) ha hb hx hy hbody
          injection hkind with hmutable
          exact ⟨by rw [hsame, hmutable], hend⟩
      | _ => cases hkind
  | pointer kind target =>
      cases b with
      | pointer kind' target' =>
          obtain ⟨hsame, hend⟩ := htarget target target' (by simp) ha hb hx hy hbody
          injection hkind with hkind
          exact ⟨by rw [hsame, hkind], hend⟩
      | _ => cases hkind
  | mutex target =>
      cases b with
      | mutex target' =>
          obtain ⟨hsame, hend⟩ := htarget target target' (by simp) ha hb hx hy hbody
          exact ⟨by rw [hsame], hend⟩
      | _ => cases hkind
  | mutexGuard target =>
      cases b with
      | mutexGuard target' =>
          obtain ⟨hsame, hend⟩ := htarget target target' (by simp) ha hb hx hy hbody
          exact ⟨by rw [hsame], hend⟩
      | _ => cases hkind
  | rwLock target =>
      cases b with
      | rwLock target' =>
          obtain ⟨hsame, hend⟩ := htarget target target' (by simp) ha hb hx hy hbody
          exact ⟨by rw [hsame], hend⟩
      | _ => cases hkind
  | rwLockReadGuard target =>
      cases b with
      | rwLockReadGuard target' =>
          obtain ⟨hsame, hend⟩ := htarget target target' (by simp) ha hb hx hy hbody
          exact ⟨by rw [hsame], hend⟩
      | _ => cases hkind
  | rwLockWriteGuard target =>
      cases b with
      | rwLockWriteGuard target' =>
          obtain ⟨hsame, hend⟩ := htarget target target' (by simp) ha hb hx hy hbody
          exact ⟨by rw [hsame], hend⟩
      | _ => cases hkind
  | threadHandle target =>
      cases b with
      | threadHandle target' =>
          obtain ⟨hsame, hend⟩ := htarget target target' (by simp) ha hb hx hy hbody
          exact ⟨by rw [hsame], hend⟩
      | _ => cases hkind
  | scopedThreadHandle target =>
      cases b with
      | scopedThreadHandle target' =>
          obtain ⟨hsame, hend⟩ := htarget target target' (by simp) ha hb hx hy hbody
          exact ⟨by rw [hsame], hend⟩
      | _ => cases hkind
  | «struct» path arguments =>
      cases b with
      | «struct» path' arguments' =>
          obtain ⟨hsame, hend⟩ := named_delimited (segments_delimited path)
            (harguments arguments (by simp) ha) (storable_of_mem hb) hx hy hbody
          exact ⟨by rw [hsame.1, hsame.2], hend⟩
      | _ => cases hkind
  | «class» path arguments =>
      cases b with
      | «class» path' arguments' =>
          obtain ⟨hsame, hend⟩ := named_delimited (segments_delimited path)
            (harguments arguments (by simp) ha) (storable_of_mem hb) hx hy hbody
          exact ⟨by rw [hsame.1, hsame.2], hend⟩
      | constParameter name =>
          -- the two share their letters, but no identifier reads like a path
          have hpath := (text_append (encodeSegments path) _ x).symm.trans hbody
          exact absurd hpath (path_ne_identifier hb (noDigit_arguments (storable_of_mem ha) hx.noDigit))
      | _ => cases hkind
  | constParameter name =>
      cases b with
      | «class» path arguments =>
          have hpath := (text_append (encodeSegments path) _ y).symm.trans hbody.symm
          exact absurd hpath (path_ne_identifier ha (noDigit_arguments (storable_of_mem hb) hy.noDigit))
      | constParameter name' =>
          obtain ⟨hsame, hend⟩ := sized_delimited name name' trivial x y trivial trivial hbody
          exact ⟨by rw [hsame], hend⟩
      | _ => cases hkind
  | interface path arguments =>
      cases b with
      | interface path' arguments' =>
          obtain ⟨hsame, hend⟩ := named_delimited (segments_delimited path)
            (harguments arguments (by simp) ha) (storable_of_mem hb) hx hy hbody
          exact ⟨by rw [hsame.1, hsame.2], hend⟩
      | _ => cases hkind
  | native path arguments =>
      cases b with
      | native path' arguments' =>
          obtain ⟨hsame, hend⟩ := named_delimited (path_delimited path)
            (harguments arguments (by simp) ha) (storable_of_mem hb) hx hy hbody
          exact ⟨by rw [hsame.1, hsame.2], hend⟩
      | constUsize value =>
          -- the two share their letters, but no number reads like a path
          have hpath := (text_append (encodePath path) _ x).symm.trans hbody
          exact absurd hpath (path_ne_number (noDigit_arguments (storable_of_mem ha) hx.noDigit) hy)
      | _ => cases hkind
  | constUsize value =>
      cases b with
      | native path arguments =>
          have hpath := (text_append (encodePath path) _ y).symm.trans hbody.symm
          exact absurd hpath (path_ne_number (noDigit_arguments (storable_of_mem hb) hy.noDigit) hx)
      | constUsize value' =>
          obtain ⟨hsame, hend⟩ := decimal_delimited hx.noDigit hy.noDigit hbody
          exact ⟨by rw [hsame], hend⟩
      | _ => cases hkind
  | function kind parameters returnType =>
      cases b with
      | function kind' parameters' returnType' =>
          injection hkind with hkind
          simp only [signable, storable, Bool.and_eq_true] at ha hb
          simp only [TypeRef.body, String.toList_append, List.append_assoc] at hbody
          have hreturns (x : List Char) : Ends ("_r_".toList ++ x) :=
            ends_separated (Kind.opens_append (by decide : Kind.opens ['r', '_'] = true) x)
          obtain ⟨hlength, hrest⟩ := decimal_delimited (noDigit_signature _ (hreturns _).noDigit)
            (noDigit_signature _ (hreturns _).noDigit) hbody
          have htold : ∀ type ∈ parameters, signable type = true ∧ Told type := by
            intro type htype
            have hsignable := signable_of_mem ha.1 type htype
            have hlt := List.sizeOf_lt_of_mem htype
            exact ⟨hsignable, ih type (by simp; omega) hsignable⟩
          obtain ⟨hparameters, hrest⟩ := signature_delimited htold (signable_of_mem hb.1) hlength
            (hreturns _) (hreturns _) hrest
          obtain ⟨hreturn, hend⟩ := htarget returnType returnType' (by simp) ha.2 hb.2 hx hy
            (List.append_cancel_left hrest)
          exact ⟨by rw [hkind, hparameters, hreturn], hend⟩
      | _ => cases hkind
  | parameter name =>
      cases b with
      | parameter name' =>
          obtain ⟨hsame, hend⟩ := sized_delimited name name' trivial x y trivial trivial hbody
          exact ⟨by rw [hsame], hend⟩
      | _ => cases hkind
  | array element length =>
      cases b with
      | array element' length' =>
          simp only [signable, storable, Bool.and_eq_true] at ha hb
          simp only [TypeRef.body, String.toList_append, List.append_assoc] at hbody
          have hlength {type : TypeRef} (h : storable type = true) (x : List Char) :
              Ends ("_".toList ++ ((encodeType type).toList ++ x)) := by
            rw [← encodeSignatureType_eq h]
            exact ends_separated (Kind.opens_append (code_opens type) x)
          obtain ⟨helement, hrest⟩ := htarget element element' (by simp; omega) ha.1 hb.1
            (hlength ha.2 x) (hlength hb.2 y) hbody
          obtain ⟨hsame, hend⟩ := htarget length length' (by simp) ha.2 hb.2 hx hy
            (List.append_cancel_left hrest)
          exact ⟨by rw [helement, hsame], hend⟩
      | _ => cases hkind
  | tuple elements =>
      cases b with
      | tuple elements' =>
          simp only [TypeRef.body, String.toList_append, List.append_assoc] at hbody
          obtain ⟨hlength, hrest⟩ := decimal_delimited (noDigit_cons (by decide) _)
            (noDigit_cons (by decide) _) hbody
          obtain ⟨hsame, hend⟩ := elements_delimited (harguments elements (by simp) ha) (storable_of_mem hb)
            hlength hx hy (List.cons.inj hrest).2
          exact ⟨by rw [hsame], hend⟩
      | _ => cases hkind
  | scalar type =>
      cases b with
      | scalar type' =>
          injection hkind with hsame
          exact ⟨by rw [hsame], hbody⟩
      | _ => cases hkind
  | void =>
      cases b with
      | void => exact ⟨rfl, hbody⟩
      | _ => cases hkind
  | condition =>
      cases b with
      | condition => exact ⟨rfl, hbody⟩
      | _ => cases hkind
  | threadScope =>
      cases b with
      | threadScope => exact ⟨rfl, hbody⟩
      | _ => cases hkind
  | error =>
      cases b with
      | error => exact ⟨rfl, hbody⟩
      | _ => cases hkind
  | callback => cases ha

theorem told (a : TypeRef) (ha : signable a = true) : Told a :=
  told_step a ha fun type _ h ↦ told type h
  termination_by sizeOf a

/-! ## 7. Functions -/

theorem storable_canonicalRef {type : TypeRef} (h : signable type = true) :
    storable type.canonicalRef = true := by
  cases type with
  | _ => exact h

theorem functionName_eq (path : List String) (parameters : List TypeRef) :
    functionName path parameters =
      "__stainless_v1_f_" ++ encodeSegments path ++ "__p_" ++ toString parameters.length ++
        encodeSeparated (parameters.map TypeRef.canonicalRef) := rfl

/-- Two functions have the same name when they have the same path and the same types of parameters. -/
theorem functionName_eq_iff (path path' : List String) (parameters parameters' : List TypeRef)
    (h : ∀ type ∈ parameters, signable type = true) (h' : ∀ type ∈ parameters', signable type = true) :
    functionName path parameters = functionName path' parameters' ↔
      path = path' ∧ parameters.map TypeRef.canonicalRef = parameters'.map TypeRef.canonicalRef := by
  have hstorable {types : List TypeRef} (h : ∀ type ∈ types, signable type = true) :
      ∀ type ∈ types.map TypeRef.canonicalRef, storable type = true := by
    intro type htype
    have ⟨parameter, hparameter, hsame⟩ := List.mem_map.mp htype
    rw [← hsame]
    exact storable_canonicalRef (h parameter hparameter)
  constructor
  · intro hname
    have htext := congrArg (fun name ↦ name.toList ++ []) hname
    simp only [functionName_eq, String.toList_append, List.append_assoc] at htext
    have hcount (x : List Char) : NoDigit ("__p_".toList ++ x) := noDigit_cons (by decide) _
    have ⟨hpath, hrest⟩ := segments_delimited path path' trivial _ _ (hcount _) (hcount _)
      (List.append_cancel_left htext)
    have hnumber := List.append_cancel_left hrest
    rw [encodeSeparated_eq (hstorable h), encodeSeparated_eq (hstorable h')] at hnumber
    have ⟨hlength, hlist⟩ := decimal_delimited (noDigit_signature _ noDigit_nil)
      (noDigit_signature _ noDigit_nil) hnumber
    have htold : ∀ type ∈ parameters.map TypeRef.canonicalRef, signable type = true ∧ Told type :=
      fun type htype ↦
        have hsignable := signable_of_storable (hstorable h type htype)
        ⟨hsignable, told type hsignable⟩
    have ⟨hsame, _⟩ := signature_delimited htold
      (fun type htype ↦ signable_of_storable (hstorable h' type htype))
      (by rw [List.length_map, List.length_map, hlength]) ends_nil ends_nil hlist
    exact ⟨hpath, hsame⟩
  · intro ⟨hpath, hsame⟩
    have hlength := congrArg List.length hsame
    rw [List.length_map, List.length_map] at hlength
    rw [functionName_eq, functionName_eq, hpath, hsame, hlength]

/-- `pick(shared string&, const T<N>&)` against `pick(shared string)` of a generic type. -/
theorem functionName_overloads :
    functionName ["shop", "pick"]
        [.reference true (.pointer .shared (.native "String" [])),
          .struct ["shop", "T"] [.constParameter "N"]] ≠
      functionName ["shop", "pick"]
        [.pointer .shared (.native "String" []), .struct ["shop", "T"] [.constUsize 4]] := by
  rw [Ne, functionName_eq_iff _ _ _ _ (by decide +kernel) (by decide +kernel)]
  simp [TypeRef.canonicalRef]

end Stainless.Compiler
