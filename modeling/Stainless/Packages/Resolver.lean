import Mathlib.Data.Finset.Basic
import Stainless.Runtime.OrderedMap

/-!
# Packages

The search of a package's manifest and of all that it depends on, as the standalone compiler makes it.
-/

open Stainless.Runtime

namespace Stainless.Packages

/-! ## 1. Paths -/

abbrev PathBuf := String

def join (base path : PathBuf) : PathBuf :=
  if path.toList.head? = some '/' then path
  else if base = "" ∨ base.toList.getLast? = some '/' then base ++ path
  else base ++ "/" ++ path

def segments (path : PathBuf) : List (List Char) := path.toList.splitOn '/'

/-- The last component, if it is a name. -/
def fileName (path : PathBuf) : Option (List Char) :=
  match ((segments path).filter fun segment ↦ segment ≠ [] ∧ segment ≠ ['.']).getLast? with
  | none => none
  | some segment => if segment = ['.', '.'] then none else some segment

def extension (path : PathBuf) : Option (List Char) :=
  match fileName path with
  | none => none
  | some name =>
      match name.splitOn '.' with
      | [] | [_] | [[], _] => none
      | pieces => pieces.getLast?

/-! ## 2. Manifests and files -/

structure PackageManifest where
  schema : UInt32
  name : String
  sources : List PathBuf
  main : Option PathBuf
  dependencies : OrderedMap String PathBuf
  nativeDependencies : OrderedMap String PathBuf

/-- The files that the compiler finds, and how it reads a manifest. -/
structure FileSystem where
  canonicalize : PathBuf → Except String PathBuf
  isDir : PathBuf → Bool
  isFile : PathBuf → Bool
  readToString : PathBuf → Except String String
  fromStr : String → Except String PackageManifest
  directories : Finset PathBuf
  canonicalize_mem : ∀ path resolved, canonicalize path = .ok resolved → isDir resolved = true →
    resolved ∈ directories

variable (fs : FileSystem)

def require (holds : Bool) (message : String) : Except String Unit :=
  if holds then .ok () else .error message

def canonicalDirectory (path : PathBuf) (description : String) : Except String PathBuf := do
  let resolved ← (fs.canonicalize path).mapError fun error ↦
    "failed to resolve " ++ description ++ " `" ++ path ++ "`: " ++ error
  require (fs.isDir resolved) (description ++ " `" ++ resolved ++ "` is not a directory")
  return resolved

def isNameCharacter (c : Char) : Bool := c.isAlphanum || c = '-' || c = '_'

def validateName (name description : String) : Except String Unit :=
  require (name ≠ "" && name.toList.all isNameCharacter) ("invalid " ++ description ++ " `" ++ name ++ "`")

def validateSourcePath (path : PathBuf) : Except String Unit := do
  require (path ≠ "" && path.toList.head? ≠ some '/' && !(segments path).contains ['.', '.'])
    ("Stainless source path `" ++ path ++ "` must stay inside its package")
  require (extension path = some ['s', 't', 'l'])
    ("Stainless package source `" ++ path ++ "` must end in .stl")

/-- The manifest of a package, if it can be read and is one of its schema. -/
def readManifest (root : PathBuf) : Except String PackageManifest := do
  let path := join root "stainless-package.toml"
  let source ← (fs.readToString path).mapError fun error ↦
    "failed to read Stainless package manifest `" ++ path ++ "`: " ++ error
  let manifest ← (fs.fromStr source).mapError fun error ↦
    "invalid Stainless package manifest `" ++ path ++ "`: " ++ error
  require (manifest.schema = 1) ("unsupported Stainless package schema " ++ toString manifest.schema ++
    " in `" ++ path ++ "`; expected 1")
  validateName manifest.name "package name"
  return manifest

def dependencyRoot (root : PathBuf) (name : String) (path : PathBuf) : Except String PathBuf := do
  validateName name "dependency name"
  canonicalDirectory fs (join root path) "dependency root"

def nativeRoot (root : PathBuf) (name : String) (path : PathBuf) : Except String PathBuf := do
  validateName name "native dependency name"
  let dependencyRoot ← canonicalDirectory fs (join root path) "native dependency root"
  require (fs.isFile (join dependencyRoot "Cargo.toml"))
    ("native dependency `" ++ name ++ "` has no Cargo.toml at `" ++ dependencyRoot ++ "`")
  return dependencyRoot

def sourceFile (root relative : PathBuf) : Except String PathBuf := do
  validateSourcePath relative
  let path := join root relative
  let source ← (fs.canonicalize path).mapError fun error ↦
    "failed to resolve Stainless source `" ++ path ++ "`: " ++ error
  require (fs.isFile source) ("Stainless source `" ++ source ++ "` is not a file")
  return source

/-! ## 3. The search -/

structure Resolver where
  visiting : Finset PathBuf := ∅
  visited : Finset PathBuf := ∅
  packageNames : OrderedMap String PathBuf := ∅
  sourcePaths : Finset PathBuf := ∅
  sources : List PathBuf := []
  packageRoots : List PathBuf := []
  nativeDependencies : OrderedMap String PathBuf := ∅

namespace Resolver

def validateResolvedName (resolver : Resolver) (root : PathBuf) (expectedName : String) :
    Except String Unit :=
  match resolver.packageNames[expectedName]? with
  | some resolved =>
      require (resolved = root) ("dependency `" ++ expectedName ++ "` resolves to both `" ++ resolved ++
        "` and `" ++ root ++ "`")
  | none =>
      .error ("dependency `" ++ expectedName ++ "` does not match the package at `" ++ root ++ "`")

def addSource (resolver : Resolver) (root relative : PathBuf) : Except String Resolver := do
  let source ← sourceFile fs root relative
  if source ∈ resolver.sourcePaths then
    return resolver
  else
    return { resolver with
      sourcePaths := insert source resolver.sourcePaths
      sources := resolver.sources ++ [source] }

def addNative (resolver : Resolver) (root : PathBuf) (name : String) (path : PathBuf) :
    Except String Resolver := do
  let dependencyRoot ← nativeRoot fs root name path
  require (resolver.nativeDependencies[name]?.all (· = dependencyRoot))
    ("native dependency `" ++ name ++ "` resolves to both `" ++
      resolver.nativeDependencies[name]?.getD "" ++ "` and `" ++ dependencyRoot ++ "`")
  return { resolver with nativeDependencies := resolver.nativeDependencies.insert name dependencyRoot }

/-- The first half of a visit: the manifest is read and its name taken. -/
def enter (resolver : Resolver) (root : PathBuf) (expectedName : Option String) :
    Except String (PackageManifest × Resolver) := do
  let manifest ← readManifest fs root
  require (expectedName.all (· = manifest.name))
    ("dependency `" ++ expectedName.getD "" ++ "` resolves to package `" ++ manifest.name ++ "` at `" ++
      root ++ "`")
  require (resolver.packageNames[manifest.name]?.all (· = root))
    ("Stainless package `" ++ manifest.name ++ "` resolves to both `" ++
      resolver.packageNames[manifest.name]?.getD "" ++ "` and `" ++ root ++ "`")
  return (manifest, { resolver with
    visiting := insert root resolver.visiting
    packageNames := resolver.packageNames.insert manifest.name root })

def addNatives (root : PathBuf) : List (String × PathBuf) → Resolver → Except String Resolver
  | [], resolver => return resolver
  | (name, path) :: dependencies, resolver => do
      let resolver ← resolver.addNative fs root name path
      addNatives root dependencies resolver

def addSources (root : PathBuf) : List PathBuf → Resolver → Except String Resolver
  | [], resolver => return resolver
  | relative :: sources, resolver => do
      let resolver ← resolver.addSource fs root relative
      addSources root sources resolver

def addMain (resolver : Resolver) (root : PathBuf) (main : Option PathBuf) (includeMain : Bool) :
    Except String Resolver :=
  match includeMain, main with
  | true, some main => resolver.addSource fs root main
  | _, _ => return resolver

/-- The second half, when all dependencies are visited. -/
def leave (resolver : Resolver) (root : PathBuf) (manifest : PackageManifest) (includeMain : Bool) :
    Except String Resolver := do
  let resolver ← addNatives fs root manifest.nativeDependencies.toList resolver
  let resolver ← addSources fs root manifest.sources resolver
  let resolver ← resolver.addMain fs root manifest.main includeMain
  return { resolver with
    visiting := resolver.visiting.erase root
    visited := insert root resolver.visited
    packageRoots := resolver.packageRoots ++ [root] }

/-- The dependencies of a package, by their names. -/
def visitAll (visit : Resolver → PathBuf → String → Option (Except String Resolver)) (root : PathBuf) :
    List (String × PathBuf) → Resolver → Option (Except String Resolver)
  | [], resolver => some (.ok resolver)
  | (name, path) :: dependencies, resolver =>
      match dependencyRoot fs root name path with
      | .error message => some (.error message)
      | .ok dependency =>
          match visit resolver dependency name with
          | some (.ok resolver) => visitAll visit root dependencies resolver
          | failed => failed

/-- `none` is a search that runs out of nested visits. -/
def visit : Nat → Resolver → PathBuf → Option String → Bool → Option (Except String Resolver)
  | 0, _, _, _, _ => none
  | depth + 1, resolver, root, expectedName, includeMain =>
      if root ∈ resolver.visited then
        match expectedName with
        | some expectedName => some do
            resolver.validateResolvedName root expectedName
            return resolver
        | none => some (.ok resolver)
      else if root ∈ resolver.visiting then
        some (.error ("cyclic Stainless package dependency at `" ++ root ++ "`"))
      else
        match resolver.enter fs root expectedName with
        | .error message => some (.error message)
        | .ok (manifest, resolver) =>
            match visitAll fs (fun resolver dependency name ↦
                visit depth resolver dependency (some name) false)
              root manifest.dependencies.toList resolver with
            | some (.ok resolver) => some (resolver.leave fs root manifest includeMain)
            | failed => failed

end Resolver

structure ResolvedPackage where
  sources : List PathBuf
  packageRoots : List PathBuf
  nativeDependencies : List (String × PathBuf)

def resolve (depth : Nat) (root : PathBuf) : Option (Except String ResolvedPackage) :=
  match canonicalDirectory fs root "package root" with
  | .error message => some (.error message)
  | .ok root =>
      match Resolver.visit fs depth {} root none true with
      | none => none
      | some (.error message) => some (.error message)
      | some (.ok resolver) => some (.ok {
          sources := resolver.sources
          packageRoots := resolver.packageRoots
          nativeDependencies := resolver.nativeDependencies.toList })

end Stainless.Packages
