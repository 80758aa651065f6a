import Stainless.Packages.Resolver
import Stainless.Reasoning.DependencyOrder

/-!
# What the search finds

The search ends, fails exactly where something reachable is wrong, and otherwise lists all that is
reachable, dependencies first.
-/

open Relation
open Reasoning
open Stainless.Runtime

namespace Stainless.Packages

variable (fs : FileSystem)

/-! ## 1. The packages -/

/-- A package has an entry under this name for the package at `dependency`. -/
def KeyAt (root : PathBuf) (name : String) (dependency : PathBuf) : Prop :=
  ∃ manifest path, readManifest fs root = .ok manifest ∧ manifest.dependencies[name]? = some path ∧
    dependencyRoot fs root name path = .ok dependency

def DependsOn (root dependency : PathBuf) : Prop := ∃ name, KeyAt fs root name dependency

def Reachable (start root : PathBuf) : Prop := ReflTransGen (DependsOn fs) start root

def NamedAt (root : PathBuf) (name : String) : Prop :=
  ∃ manifest, readManifest fs root = .ok manifest ∧ manifest.name = name

def NativeAt (root : PathBuf) (name : String) (directory : PathBuf) : Prop :=
  ∃ manifest path, readManifest fs root = .ok manifest ∧
    manifest.nativeDependencies[name]? = some path ∧ nativeRoot fs root name path = .ok directory

/-- The files that a package lists, in its order. -/
def listed (root : PathBuf) : List PathBuf :=
  match readManifest fs root with
  | .ok manifest => manifest.sources.filterMap fun relative ↦ (sourceFile fs root relative).toOption
  | .error _ => []

/-- The file with which the program starts. -/
def mainFile (root : PathBuf) : List PathBuf :=
  match readManifest fs root with
  | .ok manifest => manifest.main.toList.filterMap fun relative ↦ (sourceFile fs root relative).toOption
  | .error _ => []

/-- What can be wrong with the packages that are reachable from `start`. -/
inductive Fault (start : PathBuf) : Prop
  /-- A manifest cannot be read or is not valid. -/
  | manifest {root : PathBuf} (reachable : Reachable fs start root)
      (invalid : ∀ manifest, readManifest fs root ≠ .ok manifest)
  /-- An entry of a manifest has no valid name or points to no directory. -/
  | dependency {root : PathBuf} {manifest : PackageManifest} {name : String} {path : PathBuf}
      (reachable : Reachable fs start root) (read : readManifest fs root = .ok manifest)
      (entry : manifest.dependencies[name]? = some path)
      (invalid : ∀ dependency, dependencyRoot fs root name path ≠ .ok dependency)
  | nativeDependency {root : PathBuf} {manifest : PackageManifest} {name : String} {path : PathBuf}
      (reachable : Reachable fs start root) (read : readManifest fs root = .ok manifest)
      (entry : manifest.nativeDependencies[name]? = some path)
      (invalid : ∀ directory, nativeRoot fs root name path ≠ .ok directory)
  /-- A dependency's key is not the name of the package. -/
  | key {root dependency : PathBuf} {key name : String} (reachable : Reachable fs start root)
      (entry : KeyAt fs root key dependency) (named : NamedAt fs dependency name) (differ : key ≠ name)
  /-- One name for two directories. -/
  | name {root other : PathBuf} {name : String} (reachable : Reachable fs start root)
      (reachable' : Reachable fs start other) (named : NamedAt fs root name)
      (named' : NamedAt fs other name) (differ : root ≠ other)
  | native {root other directory directory' : PathBuf} {name : String}
      (reachable : Reachable fs start root) (reachable' : Reachable fs start other)
      (native : NativeAt fs root name directory) (native' : NativeAt fs other name directory')
      (differ : directory ≠ directory')
  | source {root relative : PathBuf} {manifest : PackageManifest} (reachable : Reachable fs start root)
      (read : readManifest fs root = .ok manifest) (listed : relative ∈ manifest.sources)
      (invalid : ∀ file, sourceFile fs root relative ≠ .ok file)
  | main {relative : PathBuf} {manifest : PackageManifest} (read : readManifest fs start = .ok manifest)
      (main : manifest.main = some relative) (invalid : ∀ file, sourceFile fs start relative ≠ .ok file)
  | cycle {root : PathBuf} (reachable : Reachable fs start root) (cycle : TransGen (DependsOn fs) root root)

/-! ## 2. Steps that can fail -/

section Settles

variable {α β : Type} {fault : Prop}

/-- A step that fails only at a fault, and whose result is as it should be. -/
def Settles (fault : Prop) (holds : α → Prop) : Except String α → Prop
  | .ok a => holds a
  | .error _ => fault

theorem Settles.bind {holds : α → Prop} {holds' : β → Prop} {step : Except String α}
    {next : α → Except String β} (h : Settles fault holds step)
    (hnext : ∀ a, holds a → Settles fault holds' (next a)) : Settles fault holds' (step >>= next) := by
  cases step with
  | error => exact h
  | ok a => exact hnext a h

theorem Settles.mono {holds holds' : α → Prop} {step : Except String α} (h : Settles fault holds step)
    (himp : ∀ a, holds a → holds' a) : Settles fault holds' step := by
  cases step with
  | error => exact h
  | ok a => exact himp a h

theorem settles_self {step : Except String α} (h : (∀ a, step ≠ .ok a) → fault) :
    Settles fault (fun a ↦ step = .ok a) step := by
  cases step with
  | error => exact h fun _ h ↦ (nomatch h)
  | ok a => rfl

theorem settles_require {condition : Bool} {message : String} (h : condition = false → fault) :
    Settles fault (fun _ ↦ condition = true) (require condition message) := by
  cases condition with
  | false => exact h rfl
  | true => rfl

end Settles

/-! ## 3. The invariant -/

/-- Nothing is wrong with a package by itself. -/
structure Settled (root : PathBuf) (manifest : PackageManifest) : Prop where
  read : readManifest fs root = .ok manifest
  dependencies : ∀ name path, manifest.dependencies[name]? = some path →
    ∃ dependency, dependencyRoot fs root name path = .ok dependency ∧ NamedAt fs dependency name
  natives : ∀ name path, manifest.nativeDependencies[name]? = some path →
    ∃ directory, nativeRoot fs root name path = .ok directory
  sources : ∀ relative ∈ manifest.sources, ∃ file, sourceFile fs root relative = .ok file

/-- Between two visits. -/
structure Inv (start : PathBuf) (resolver : Resolver) : Prop where
  visited_iff : ∀ root, root ∈ resolver.visited ↔ root ∈ resolver.packageRoots
  nodup : resolver.packageRoots.Nodup
  disjoint : ∀ root ∈ resolver.visiting, root ∉ resolver.visited
  directories : resolver.visiting ⊆ fs.directories
  reachable : ∀ root, root ∈ resolver.visiting ∨ root ∈ resolver.visited → Reachable fs start root
  names : ∀ name root, resolver.packageNames[name]? = some root ↔
    (root ∈ resolver.visiting ∨ root ∈ resolver.visited) ∧ NamedAt fs root name
  order : DependencyFirst (DependsOn fs) resolver.packageRoots
  packages : ∀ root ∈ resolver.packageRoots, ∃ manifest, Settled fs root manifest
  natives : ∀ name directory, resolver.nativeDependencies[name]? = some directory ↔
    ∃ root ∈ resolver.packageRoots, NativeAt fs root name directory
  sources : resolver.sources = (resolver.packageRoots.flatMap (listed fs)).eraseDups
  sourcePaths : ∀ file, file ∈ resolver.sourcePaths ↔ file ∈ resolver.sources

variable {fs}

theorem NamedAt.unique {root : PathBuf} {name name' : String} (h : NamedAt fs root name)
    (h' : NamedAt fs root name') : name = name' := by
  have ⟨manifest, hread, hname⟩ := h
  have ⟨manifest', hread', hname'⟩ := h'
  rw [hread] at hread'
  rw [← hname, ← hname', Except.ok.inj hread']

theorem Inv.empty (start : PathBuf) : Inv fs start {} where
  visited_iff := fun _ ↦ by simp
  nodup := List.nodup_nil
  disjoint := fun _ h ↦ by simp at h
  directories := Finset.empty_subset _
  reachable := fun _ h ↦ by simp at h
  names := fun _ _ ↦ by simp
  order := .nil
  packages := fun _ h ↦ by simp at h
  natives := fun _ _ ↦ by simp
  sources := rfl
  sourcePaths := fun _ ↦ by simp

/-- What a visit starts from. -/
structure Callable (fs : FileSystem) (start : PathBuf) (resolver : Resolver) (root : PathBuf)
    (expectedName : Option String) : Prop where
  inv : Inv fs start resolver
  directory : root ∈ fs.directories
  reachable : Reachable fs start root
  path : ∀ parent ∈ resolver.visiting, TransGen (DependsOn fs) parent root
  expected : ∀ name, expectedName = some name → ∃ parent, Reachable fs start parent ∧ KeyAt fs parent name root

/-- What a visit leaves. -/
structure Done (fs : FileSystem) (start : PathBuf) (resolver : Resolver) (root : PathBuf)
    (expectedName : Option String) (resolver' : Resolver) : Prop where
  inv : Inv fs start resolver'
  visiting : resolver'.visiting = resolver.visiting
  roots : resolver.packageRoots ⊆ resolver'.packageRoots
  visited : root ∈ resolver'.visited
  named : ∀ name, expectedName = some name → NamedAt fs root name

theorem canonicalDirectory_settles (path : PathBuf) (description : String) :
    Settles True (fun resolved ↦ resolved ∈ fs.directories) (canonicalDirectory fs path description) := by
  unfold canonicalDirectory
  cases hcanonical : fs.canonicalize path with
  | error => trivial
  | ok resolved =>
      exact (settles_require fun _ ↦ trivial).bind fun _ hdir ↦
        fs.canonicalize_mem path resolved hcanonical hdir

theorem dependencyRoot_mem {root path dependency : PathBuf} {name : String}
    (h : dependencyRoot fs root name path = .ok dependency) : dependency ∈ fs.directories := by
  have hsettles : Settles True (fun dependency ↦ dependency ∈ fs.directories)
      (dependencyRoot fs root name path) :=
    (settles_self fun _ ↦ trivial).bind fun _ _ ↦ canonicalDirectory_settles _ _
  rw [h] at hsettles
  exact hsettles

/-! ## 4. A package is entered -/

variable {start root : PathBuf} {resolver : Resolver} {expectedName : Option String}

theorem Inv.enter (h : Inv fs start resolver) (hdirectory : root ∈ fs.directories)
    (hreachable : Reachable fs start root) (hfresh : root ∉ resolver.visited) {manifest : PackageManifest}
    (hread : readManifest fs root = .ok manifest)
    (hname : ∀ other, resolver.packageNames[manifest.name]? = some other → other = root) :
    Inv fs start { resolver with
      visiting := insert root resolver.visiting
      packageNames := resolver.packageNames.insert manifest.name root } where
  visited_iff := h.visited_iff
  nodup := h.nodup
  disjoint := fun other hother ↦ by
    cases Finset.mem_insert.mp hother with
    | inl hsame => rwa [hsame]
    | inr hold => exact h.disjoint other hold
  directories := Finset.insert_subset hdirectory h.directories
  reachable := fun other hother ↦ by
    cases hother with
    | inl hvisiting =>
        cases Finset.mem_insert.mp hvisiting with
        | inl hsame => rwa [hsame]
        | inr hold => exact h.reachable other (.inl hold)
    | inr hvisited => exact h.reachable other (.inr hvisited)
  names := fun name other ↦ by
    have hnamed : NamedAt fs root manifest.name := ⟨manifest, hread, rfl⟩
    rw [OrderedMap.getElem?_insert, Finset.mem_insert]
    by_cases heq : manifest.name = name
    · rw [if_pos heq, ← heq, Option.some.injEq]
      constructor
      · intro hroot
        rw [← hroot]
        exact ⟨.inl (.inl rfl), hnamed⟩
      · intro ⟨hmem, hother⟩
        by_cases hroot : other = root
        · exact hroot.symm
        · have hold : other ∈ resolver.visiting ∨ other ∈ resolver.visited :=
            hmem.imp_left fun h ↦ h.resolve_left hroot
          exact (hname other ((h.names _ other).mpr ⟨hold, hother⟩)).symm
    · rw [if_neg heq, h.names]
      constructor
      · intro ⟨hmem, hother⟩
        exact ⟨hmem.imp_left .inr, hother⟩
      · intro ⟨hmem, hother⟩
        have hroot : other ≠ root := fun hroot ↦ heq (NamedAt.unique hnamed (hroot ▸ hother))
        exact ⟨hmem.imp_left fun h ↦ h.resolve_left hroot, hother⟩
  order := h.order
  packages := h.packages
  natives := h.natives
  sources := h.sources
  sourcePaths := h.sourcePaths

theorem enter_settles (h : Callable fs start resolver root expectedName) (hfresh : root ∉ resolver.visited) :
    Settles (Fault fs start) (fun entered ↦ readManifest fs root = .ok entered.1 ∧
        entered.2 = { resolver with
          visiting := insert root resolver.visiting
          packageNames := resolver.packageNames.insert entered.1.name root } ∧
        Inv fs start entered.2 ∧ ∀ name, expectedName = some name → NamedAt fs root name)
      (resolver.enter fs root expectedName) := by
  unfold Resolver.enter
  refine (settles_self fun hinvalid ↦ .manifest h.reachable hinvalid).bind fun manifest hread ↦ ?_
  have hnamed : NamedAt fs root manifest.name := ⟨manifest, hread, rfl⟩
  refine (settles_require fun hdiffer ↦ ?_).bind fun _ hexpected ↦ ?_
  · cases expectedName with
    | none => cases hdiffer
    | some name =>
        have ⟨parent, hparent, hkey⟩ := h.expected name rfl
        exact .key hparent hkey hnamed (by simpa using hdiffer)
  refine (settles_require fun hdiffer ↦ ?_).bind fun _ hname ↦ ?_
  · cases hprevious : resolver.packageNames[manifest.name]? with
    | none =>
        rw [hprevious] at hdiffer
        cases hdiffer
    | some other =>
        rw [hprevious] at hdiffer
        have ⟨hother, hnamed'⟩ := (h.inv.names _ other).mp hprevious
        exact .name (h.inv.reachable other hother) h.reachable hnamed' hnamed (by simpa using hdiffer)
  refine ⟨hread, rfl, h.inv.enter h.directory h.reachable hfresh hread fun other hother ↦ ?_, fun name hname' ↦ ?_⟩
  · rw [hother] at hname
    simpa using hname
  · rw [hname'] at hexpected
    have hsame : name = manifest.name := by simpa using hexpected
    rwa [hsame]

/-! ## 5. A package is left -/

theorem addNative_settles {manifest : PackageManifest} (hreachable : Reachable fs start root)
    (hread : readManifest fs root = .ok manifest) {name : String} {path : PathBuf}
    (hentry : manifest.nativeDependencies[name]? = some path) (resolver : Resolver)
    (hbound : ∀ name directory, resolver.nativeDependencies[name]? = some directory →
      ∃ other, Reachable fs start other ∧ NativeAt fs other name directory) :
    Settles (Fault fs start) (fun resolver' ↦ ∃ directory, nativeRoot fs root name path = .ok directory ∧
        (∀ bound, resolver.nativeDependencies[name]? = some bound → bound = directory) ∧
        resolver' = { resolver with
          nativeDependencies := resolver.nativeDependencies.insert name directory })
      (resolver.addNative fs root name path) := by
  unfold Resolver.addNative
  refine (settles_self fun hinvalid ↦ .nativeDependency hreachable hread hentry hinvalid).bind
    fun directory hdirectory ↦ ?_
  refine (settles_require fun hdiffer ↦ ?_).bind fun _ hsame ↦ ⟨directory, hdirectory, ?_, rfl⟩
  · cases hprevious : resolver.nativeDependencies[name]? with
    | none =>
        rw [hprevious] at hdiffer
        cases hdiffer
    | some bound =>
        rw [hprevious] at hdiffer
        have ⟨other, hother, hnative⟩ := hbound name bound hprevious
        exact .native hother hreachable hnative ⟨manifest, path, hread, hentry, hdirectory⟩
          (by simpa using hdiffer)
  · intro bound hprevious
    rw [hprevious] at hsame
    simpa using hsame

/-- The native dependencies: each name is bound to one directory. -/
theorem addNatives_settles {manifest : PackageManifest} (hreachable : Reachable fs start root)
    (hread : readManifest fs root = .ok manifest) (entries : List (String × PathBuf))
    (hentries : ∀ name path, (name, path) ∈ entries → manifest.nativeDependencies[name]? = some path)
    (resolver : Resolver) (hbound : ∀ name directory, resolver.nativeDependencies[name]? = some directory →
      ∃ other, Reachable fs start other ∧ NativeAt fs other name directory) :
    Settles (Fault fs start) (fun resolver' ↦
        (∃ natives, resolver' = { resolver with nativeDependencies := natives }) ∧
        (∀ name path, (name, path) ∈ entries → ∃ directory, nativeRoot fs root name path = .ok directory) ∧
        ∀ name directory, resolver'.nativeDependencies[name]? = some directory ↔
          resolver.nativeDependencies[name]? = some directory ∨
            ∃ path, (name, path) ∈ entries ∧ nativeRoot fs root name path = .ok directory)
      (Resolver.addNatives fs root entries resolver) := by
  induction entries generalizing resolver with
  | nil => exact ⟨⟨_, rfl⟩, fun _ _ h ↦ (nomatch h), fun _ _ ↦ by simp⟩
  | cons entry entries ih =>
      have ⟨name, path⟩ := entry
      have hentry := hentries name path List.mem_cons_self
      unfold Resolver.addNatives
      refine (addNative_settles hreachable hread hentry resolver hbound).bind ?_
      -- a name that was bound before is bound to the same directory, or the package is at fault
      intro resolver' ⟨directory, hdirectory, hsame, hresolver'⟩
      have hnative : NativeAt fs root name directory := ⟨manifest, path, hread, hentry, hdirectory⟩
      have hget (name' : String) (directory' : PathBuf) :
          resolver'.nativeDependencies[name']? = some directory' ↔
            resolver.nativeDependencies[name']? = some directory' ∨
              name' = name ∧ directory' = directory := by
        rw [hresolver', OrderedMap.getElem?_insert]
        by_cases heq : name = name'
        · rw [if_pos heq, Option.some.injEq, ← heq]
          constructor
          · intro hbound
            exact .inr ⟨rfl, hbound.symm⟩
          · intro hbound
            cases hbound with
            | inl hold => exact (hsame directory' hold).symm
            | inr hnew => exact hnew.2.symm
        · rw [if_neg heq]
          constructor
          · exact .inl
          · intro hbound
            exact hbound.resolve_right fun hnew ↦ heq hnew.1.symm
      have hentries' : ∀ name path, (name, path) ∈ entries →
          manifest.nativeDependencies[name]? = some path :=
        fun name path hmem ↦ hentries name path (List.mem_cons_of_mem _ hmem)
      -- the first entry, and what the others add to it
      refine (ih hentries' resolver' fun name' directory' hget' ↦ ?_).mono
        fun resolver'' ⟨⟨natives, hnatives⟩, hvalid, hiff⟩ ↦ ⟨⟨natives, ?_⟩, ?_, ?_⟩
      · cases (hget name' directory').mp hget' with
        | inl hold => exact hbound name' directory' hold
        | inr hnew =>
            rw [hnew.1, hnew.2]
            exact ⟨root, hreachable, hnative⟩
      · rw [hnatives, hresolver']
      · intro name' path' hmem
        cases List.mem_cons.mp hmem with
        | inl hfirst =>
            injection hfirst with hname hpath
            rw [hname, hpath]
            exact ⟨directory, hdirectory⟩
        | inr hrest => exact hvalid name' path' hrest
      · intro name' directory'
        rw [hiff, hget]
        constructor
        · intro hbound
          cases hbound with
          | inl hold =>
              cases hold with
              | inl hold => exact .inl hold
              | inr hnew => exact .inr ⟨path, by rw [hnew.1]; exact List.mem_cons_self, by
                  rw [hnew.1, hnew.2, hdirectory]⟩
          | inr hrest =>
              have ⟨path', hmem, hroot⟩ := hrest
              exact .inr ⟨path', List.mem_cons_of_mem _ hmem, hroot⟩
        · intro hbound
          cases hbound with
          | inl hold => exact .inl (.inl hold)
          | inr hentry =>
              have ⟨path', hmem, hroot⟩ := hentry
              cases List.mem_cons.mp hmem with
              | inl hfirst =>
                  injection hfirst with hname hpath
                  rw [hname, hpath, hdirectory] at hroot
                  exact .inl (.inr ⟨hname, (Except.ok.inj hroot).symm⟩)
              | inr hrest => exact .inr ⟨path', hrest, hroot⟩

theorem filterMap_sourceFile {relative file : PathBuf} (h : sourceFile fs root relative = .ok file)
    (sources : List PathBuf) :
    (relative :: sources).filterMap (fun relative ↦ (sourceFile fs root relative).toOption) =
      file :: sources.filterMap fun relative ↦ (sourceFile fs root relative).toOption := by
  rw [List.filterMap_cons, h]
  rfl

/-- A source is added behind the ones that there are already. -/
theorem addSource_settles {relative : PathBuf} (hfault : (∀ file, sourceFile fs root relative ≠ .ok file) →
      Fault fs start) (resolver : Resolver) (files : List PathBuf) (hsources : resolver.sources = files.eraseDups)
    (hpaths : ∀ file, file ∈ resolver.sourcePaths ↔ file ∈ resolver.sources) :
    Settles (Fault fs start) (fun resolver' ↦ ∃ file paths sources, sourceFile fs root relative = .ok file ∧
        resolver' = { resolver with sourcePaths := paths, sources := sources } ∧
        sources = (files ++ [file]).eraseDups ∧ ∀ file, file ∈ paths ↔ file ∈ sources)
      (resolver.addSource fs root relative) := by
  unfold Resolver.addSource
  refine (settles_self hfault).bind fun file hfile ↦ ?_
  have hmem : file ∈ resolver.sourcePaths ↔ file ∈ files := by
    rw [hpaths, hsources, List.mem_eraseDups]
  by_cases hold : file ∈ resolver.sourcePaths
  · rw [if_pos hold]
    refine ⟨file, resolver.sourcePaths, resolver.sources, hfile, rfl, ?_, hpaths⟩
    rw [eraseDups_concat, if_pos (hmem.mp hold), hsources]
  · rw [if_neg hold]
    refine ⟨file, _, _, hfile, rfl, ?_, fun other ↦ ?_⟩
    · rw [eraseDups_concat, if_neg fun h ↦ hold (hmem.mpr h), hsources]
    · rw [Finset.mem_insert, List.mem_append, List.mem_singleton, hpaths, or_comm]

theorem addSources_settles {manifest : PackageManifest} (hreachable : Reachable fs start root)
    (hread : readManifest fs root = .ok manifest) (entries : List PathBuf)
    (hentries : ∀ relative ∈ entries, relative ∈ manifest.sources) (resolver : Resolver)
    (files : List PathBuf) (hsources : resolver.sources = files.eraseDups)
    (hpaths : ∀ file, file ∈ resolver.sourcePaths ↔ file ∈ resolver.sources) :
    Settles (Fault fs start) (fun resolver' ↦
        (∀ relative ∈ entries, ∃ file, sourceFile fs root relative = .ok file) ∧
        ∃ paths sources, resolver' = { resolver with sourcePaths := paths, sources := sources } ∧
          sources = (files ++ entries.filterMap fun relative ↦
            (sourceFile fs root relative).toOption).eraseDups ∧
          ∀ file, file ∈ paths ↔ file ∈ sources)
      (Resolver.addSources fs root entries resolver) := by
  induction entries generalizing resolver files with
  | nil =>
      refine ⟨fun _ h ↦ (nomatch h), resolver.sourcePaths, resolver.sources, rfl, ?_, hpaths⟩
      rw [List.filterMap_nil, List.append_nil, hsources]
  | cons relative entries ih =>
      unfold Resolver.addSources
      refine (addSource_settles (fun hinvalid ↦
        .source hreachable hread (hentries relative List.mem_cons_self) hinvalid) resolver files hsources
        hpaths).bind fun resolver' ⟨file, paths, sources, hfile, hresolver', hsources', hpaths'⟩ ↦ ?_
      refine (ih (fun relative h ↦ hentries relative (List.mem_cons_of_mem _ h)) resolver' (files ++ [file])
        (by rw [hresolver']; exact hsources') (by rw [hresolver']; exact hpaths')).mono
        fun resolver'' ⟨hvalid, paths', sources', hresolver'', hsources'', hpaths''⟩ ↦
          ⟨fun other hother ↦ ?_, paths', sources', ?_, ?_, hpaths''⟩
      · cases List.mem_cons.mp hother with
        | inl hsame =>
            rw [hsame]
            exact ⟨file, hfile⟩
        | inr hrest => exact hvalid other hrest
      · rw [hresolver'', hresolver']
      · rw [hsources'', filterMap_sourceFile hfile, List.append_assoc]
        rfl

theorem listed_eq {manifest : PackageManifest} (hread : readManifest fs root = .ok manifest) :
    listed fs root =
      manifest.sources.filterMap fun relative ↦ (sourceFile fs root relative).toOption := by
  rw [listed, hread]

/-- The native dependencies of a package, by its manifest. -/
theorem nativeAt_iff {manifest : PackageManifest} (hread : readManifest fs root = .ok manifest)
    {name : String} {directory : PathBuf} : NativeAt fs root name directory ↔
      ∃ path, (name, path) ∈ manifest.nativeDependencies.toList ∧
        nativeRoot fs root name path = .ok directory := by
  constructor
  · intro ⟨manifest', path, hread', hentry, hroot⟩
    rw [hread] at hread'
    rw [← Except.ok.inj hread'] at hentry
    exact ⟨path, Std.ExtTreeMap.mem_toList_iff_getElem?_eq_some.mpr hentry, hroot⟩
  · intro ⟨path, hentry, hroot⟩
    exact ⟨manifest, path, hread, Std.ExtTreeMap.mem_toList_iff_getElem?_eq_some.mp hentry, hroot⟩

theorem addMain_false (resolver : Resolver) (root : PathBuf) (main : Option PathBuf) :
    resolver.addMain fs root main false = .ok resolver := by
  cases main <;> rfl

/-- All that a package depends on is visited. -/
def Visited (fs : FileSystem) (root : PathBuf) (dependencies : List (String × PathBuf)) (resolver : Resolver) :
    Prop :=
  ∀ name path, (name, path) ∈ dependencies → ∃ dependency,
    dependencyRoot fs root name path = .ok dependency ∧ NamedAt fs dependency name ∧
      dependency ∈ resolver.visited

theorem leave_settles {manifest : PackageManifest} (h : Inv fs start resolver)
    (hvisiting : root ∈ resolver.visiting) (hread : readManifest fs root = .ok manifest)
    (hdependencies : Visited fs root manifest.dependencies.toList resolver) :
    Settles (Fault fs start) (fun resolver' ↦ Inv fs start resolver' ∧
        resolver'.visiting = resolver.visiting.erase root ∧
        resolver'.packageRoots = resolver.packageRoots ++ [root] ∧ root ∈ resolver'.visited)
      (resolver.leave fs root manifest false) := by
  have hreachable := h.reachable root (.inl hvisiting)
  have hbound : ∀ name directory, resolver.nativeDependencies[name]? = some directory →
      ∃ other, Reachable fs start other ∧ NativeAt fs other name directory := by
    intro name directory hget
    have ⟨other, hother, hnative⟩ := (h.natives name directory).mp hget
    exact ⟨other, h.reachable other (.inr ((h.visited_iff other).mpr hother)), hnative⟩
  unfold Resolver.leave
  refine (addNatives_settles hreachable hread manifest.nativeDependencies.toList
    (fun _ _ hmem ↦ Std.ExtTreeMap.mem_toList_iff_getElem?_eq_some.mp hmem) resolver hbound).bind
    fun resolver₁ ⟨⟨natives, hresolver₁⟩, hnatives, hget⟩ ↦ ?_
  refine (addSources_settles hreachable hread manifest.sources (fun _ hmem ↦ hmem) resolver₁
    (resolver.packageRoots.flatMap (listed fs)) (by rw [hresolver₁]; exact h.sources)
    (by rw [hresolver₁]; exact h.sourcePaths)).bind
    fun resolver₂ ⟨hvalid, paths, sources, hresolver₂, hsources, hpaths⟩ ↦ ?_
  have hfresh : root ∉ resolver.visited := h.disjoint root hvisiting
  have hnew : root ∉ resolver.packageRoots := fun hmem ↦ hfresh ((h.visited_iff root).mpr hmem)
  have hsettled : Settled fs root manifest := {
    read := hread
    dependencies := fun name path hentry ↦
      have ⟨dependency, hroot, hnamed, _⟩ := hdependencies name path
        (Std.ExtTreeMap.mem_toList_iff_getElem?_eq_some.mpr hentry)
      ⟨dependency, hroot, hnamed⟩
    natives := fun name path hentry ↦
      hnatives name path (Std.ExtTreeMap.mem_toList_iff_getElem?_eq_some.mpr hentry)
    sources := hvalid }
  -- Whoever was being visited or is visited still is, and nobody else.
  have hmem (other : PathBuf) : (other ∈ resolver.visiting.erase root ∨ other ∈ insert root resolver.visited) ↔
      other ∈ resolver.visiting ∨ other ∈ resolver.visited := by
    rw [Finset.mem_erase, Finset.mem_insert]
    by_cases hroot : other = root
    · simp [hroot, hvisiting]
    · simp [hroot]
  rw [hresolver₁] at hresolver₂ hget
  rw [addMain_false, hresolver₂]
  refine ⟨?_, rfl, rfl, Finset.mem_insert_self root _⟩
  exact {
    visited_iff := fun other ↦ by
      rw [Finset.mem_insert, List.mem_append, List.mem_singleton, h.visited_iff, or_comm]
    nodup := by
      rw [List.nodup_append]
      refine ⟨h.nodup, List.nodup_singleton root, fun other hother same hsame ↦ ?_⟩
      rw [List.mem_singleton.mp hsame]
      exact fun heq ↦ hnew (heq ▸ hother)
    disjoint := fun other hother ↦ by
      have ⟨hne, hold⟩ := Finset.mem_erase.mp hother
      rw [Finset.mem_insert, not_or]
      exact ⟨hne, h.disjoint other hold⟩
    directories := fun other hother ↦ h.directories (Finset.mem_of_mem_erase hother)
    reachable := fun other hother ↦ h.reachable other ((hmem other).mp hother)
    names := fun name other ↦ by rw [h.names, hmem]
    order := h.order.concat fun dependency ⟨name, manifest', path, hread', hentry, hroot⟩ ↦ by
      rw [hread] at hread'
      rw [← Except.ok.inj hread'] at hentry
      have ⟨dependency', hroot', _, hvisited⟩ := hdependencies name path
        (Std.ExtTreeMap.mem_toList_iff_getElem?_eq_some.mpr hentry)
      rw [hroot] at hroot'
      rw [Except.ok.inj hroot']
      exact (h.visited_iff dependency').mp hvisited
    packages := fun other hother ↦ by
      cases List.mem_append.mp hother with
      | inl hold => exact h.packages other hold
      | inr hsame =>
          rw [List.mem_singleton.mp hsame]
          exact ⟨manifest, hsettled⟩
    natives := fun name directory ↦ by
      have hroot : NativeAt fs root name directory ↔ _ := nativeAt_iff hread
      rw [hget, h.natives, ← hroot]
      simp only [List.mem_append, List.mem_singleton, or_and_right, exists_or, exists_eq_left]
    sources := by
      rw [List.flatMap_append, List.flatMap_singleton, listed_eq hread]
      exact hsources
    sourcePaths := hpaths }

/-! ## 6. The walk -/

/-- A walk through a list of dependencies, when each visit ends well or at a fault. -/
theorem visitAll_settles {manifest : PackageManifest} (hread : readManifest fs root = .ok manifest)
    {visit : Resolver → PathBuf → String → Option (Except String Resolver)} {stack : Finset PathBuf}
    (hroot : root ∈ stack) (hpath : ∀ parent ∈ stack, ReflTransGen (DependsOn fs) parent root)
    (hvisit : ∀ resolver dependency name, resolver.visiting = stack →
      Callable fs start resolver dependency (some name) → ∃ result, visit resolver dependency name = some result ∧
        Settles (Fault fs start) (Done fs start resolver dependency (some name)) result)
    (dependencies : List (String × PathBuf))
    (hentries : ∀ name path, (name, path) ∈ dependencies → manifest.dependencies[name]? = some path)
    (resolver : Resolver) (h : Inv fs start resolver) (hstack : resolver.visiting = stack) :
    ∃ result, Resolver.visitAll fs visit root dependencies resolver = some result ∧
      Settles (Fault fs start) (fun resolver' ↦ Inv fs start resolver' ∧ resolver'.visiting = stack ∧
        resolver.packageRoots ⊆ resolver'.packageRoots ∧ Visited fs root dependencies resolver') result := by
  induction dependencies generalizing resolver with
  | nil => exact ⟨_, rfl, h, hstack, List.Subset.refl _, fun _ _ h ↦ (nomatch h)⟩
  | cons entry dependencies ih =>
      have ⟨name, path⟩ := entry
      have hentry := hentries name path List.mem_cons_self
      have hreachable := h.reachable root (.inl (hstack ▸ hroot))
      rw [Resolver.visitAll]
      cases hdependency : dependencyRoot fs root name path with
      | error message =>
          exact ⟨_, rfl, .dependency hreachable hread hentry fun dependency heq ↦ by
            rw [hdependency] at heq
            cases heq⟩
      | ok dependency =>
          have hkey : KeyAt fs root name dependency := ⟨manifest, path, hread, hentry, hdependency⟩
          have hcallable : Callable fs start resolver dependency (some name) := {
            inv := h
            directory := dependencyRoot_mem hdependency
            reachable := hreachable.tail ⟨name, hkey⟩
            path := fun parent hparent ↦ .tail' (hpath parent (hstack ▸ hparent)) ⟨name, hkey⟩
            expected := fun other hother ↦ by
              rw [← Option.some.inj hother]
              exact ⟨root, hreachable, hkey⟩ }
          have ⟨result, hresult, hsettles⟩ := hvisit resolver dependency name hstack hcallable
          simp only [hresult]
          cases result with
          | error message => exact ⟨_, rfl, hsettles⟩
          | ok resolver' =>
              have hdone : Done fs start resolver dependency (some name) resolver' := hsettles
              have ⟨result, hresult, hrest⟩ := ih
                (fun name path hmem ↦ hentries name path (List.mem_cons_of_mem _ hmem)) resolver' hdone.inv
                (hdone.visiting.trans hstack)
              refine ⟨result, hresult, hrest.mono fun resolver'' ⟨hinv, hstack', hroots, hvisited⟩ ↦
                ⟨hinv, hstack', fun _ hmem ↦ hroots (hdone.roots hmem), fun name' path' hmem ↦ ?_⟩⟩
              cases List.mem_cons.mp hmem with
              | inl hfirst =>
                  injection hfirst with hname hpath'
                  rw [hname, hpath']
                  refine ⟨dependency, hdependency, hdone.named name rfl, ?_⟩
                  rw [hinv.visited_iff]
                  exact hroots ((hdone.inv.visited_iff dependency).mp hdone.visited)
              | inr hrest => exact hvisited name' path' hrest

theorem visit_succ (depth : Nat) (resolver : Resolver) (root : PathBuf) (expectedName : Option String)
    (includeMain : Bool) :
    Resolver.visit fs (depth + 1) resolver root expectedName includeMain =
      if root ∈ resolver.visited then
        match expectedName with
        | some expectedName => some do
            resolver.validateResolvedName root expectedName
            return resolver
        | none => some (.ok resolver)
      else if root ∈ resolver.visiting then
        some (.error ("cyclic Stainless package dependency at `" ++ root ++ "`"))
      else
        match resolver.enter fs root expectedName with
        | .error message => some (.error message)
        | .ok (manifest, resolver) =>
            match Resolver.visitAll fs (fun resolver dependency name ↦
                Resolver.visit fs depth resolver dependency (some name) false)
              root manifest.dependencies.toList resolver with
            | some (.ok resolver) => some (resolver.leave fs root manifest includeMain)
            | failed => failed := rfl

/-- A package that is already visited is only asked for its name. -/
theorem validate_settles (h : Callable fs start resolver root expectedName) (hvisited : root ∈ resolver.visited)
    {name : String} (hexpected : expectedName = some name) :
    Settles (Fault fs start) (fun _ ↦ NamedAt fs root name) (resolver.validateResolvedName root name) := by
  have ⟨parent, hparent, hkey⟩ := h.expected name hexpected
  have ⟨manifest, hsettled⟩ := h.inv.packages root ((h.inv.visited_iff root).mp hvisited)
  have hnamed : NamedAt fs root manifest.name := ⟨manifest, hsettled.read, rfl⟩
  have hother (hget : resolver.packageNames[name]? ≠ some root) : Fault fs start := by
    refine .key hparent hkey hnamed fun hsame ↦ hget ?_
    exact (h.inv.names name root).mpr ⟨.inr hvisited, hsame ▸ hnamed⟩
  unfold Resolver.validateResolvedName
  cases hget : resolver.packageNames[name]? with
  | none => exact hother (by rw [hget]; simp)
  | some resolved =>
      refine (settles_require fun hdiffer ↦ hother ?_).mono fun _ hsame ↦ ?_
      · rw [hget]
        simpa using hdiffer
      · have hsame : resolved = root := by simpa using hsame
        exact ((h.inv.names name root).mp (hsame ▸ hget)).2

/-- A package that is new: its dependencies are visited, then it is left. -/
theorem visit_fresh (depth : Nat) (h : Callable fs start resolver root expectedName)
    (hvisited : root ∉ resolver.visited) (hvisiting : root ∉ resolver.visiting)
    (hvisit : ∀ resolver' dependency name, resolver'.visiting = insert root resolver.visiting →
      Callable fs start resolver' dependency (some name) → ∃ result,
        Resolver.visit fs depth resolver' dependency (some name) false = some result ∧
          Settles (Fault fs start) (Done fs start resolver' dependency (some name)) result) :
    (Fault fs start ∧ ∃ message, ∀ includeMain,
        Resolver.visit fs (depth + 1) resolver root expectedName includeMain = some (.error message)) ∨
      ∃ manifest resolver', readManifest fs root = .ok manifest ∧ Inv fs start resolver' ∧
        resolver'.visiting = insert root resolver.visiting ∧
        resolver.packageRoots ⊆ resolver'.packageRoots ∧
        Visited fs root manifest.dependencies.toList resolver' ∧
        (∀ name, expectedName = some name → NamedAt fs root name) ∧
        ∀ includeMain, Resolver.visit fs (depth + 1) resolver root expectedName includeMain =
          some (resolver'.leave fs root manifest includeMain) := by
  have hunfold (includeMain : Bool) : Resolver.visit fs (depth + 1) resolver root expectedName includeMain =
      match resolver.enter fs root expectedName with
      | .error message => some (.error message)
      | .ok (manifest, resolver) =>
          match Resolver.visitAll fs (fun resolver dependency name ↦
              Resolver.visit fs depth resolver dependency (some name) false)
            root manifest.dependencies.toList resolver with
          | some (.ok resolver) => some (resolver.leave fs root manifest includeMain)
          | failed => failed := by
    rw [visit_succ, if_neg hvisited, if_neg hvisiting]
  have henter := enter_settles h hvisited
  cases hentered : resolver.enter fs root expectedName with
  | error message =>
      rw [hentered] at henter
      exact .inl ⟨henter, message, fun includeMain ↦ by rw [hunfold, hentered]⟩
  | ok entered =>
      rw [hentered] at henter
      have ⟨hread, hresolver, hinv, hnamed⟩ := henter
      have hstack : entered.2.visiting = insert root resolver.visiting := by rw [hresolver]
      have hroots : entered.2.packageRoots = resolver.packageRoots := by rw [hresolver]
      have ⟨result, hresult, hall⟩ := visitAll_settles hread (Finset.mem_insert_self root resolver.visiting)
        (fun parent hparent ↦ by
          cases Finset.mem_insert.mp hparent with
          | inl hsame => rw [hsame]
          | inr hold => exact (h.path parent hold).to_reflTransGen)
        hvisit entered.1.dependencies.toList
        (fun _ _ hmem ↦ Std.ExtTreeMap.mem_toList_iff_getElem?_eq_some.mp hmem) entered.2 hinv hstack
      cases result with
      | error message =>
          refine .inl ⟨hall, message, fun includeMain ↦ ?_⟩
          rw [hunfold, hentered]
          simp only [hresult]
      | ok resolver' =>
          have ⟨hinv', hstack', hroots', hdependencies⟩ := hall
          refine .inr ⟨entered.1, resolver', hread, hinv', hstack', hroots ▸ hroots', hdependencies, hnamed,
            fun includeMain ↦ ?_⟩
          rw [hunfold, hentered]
          simp only [hresult]

theorem visit_settles (depth : Nat) (h : Callable fs start resolver root expectedName)
    (hdepth : fs.directories.card < depth + resolver.visiting.card) :
    ∃ result, Resolver.visit fs depth resolver root expectedName false = some result ∧
      Settles (Fault fs start) (Done fs start resolver root expectedName) result := by
  induction depth generalizing resolver root expectedName with
  | zero =>
      have := Finset.card_le_card h.inv.directories
      omega
  | succ depth ih =>
      by_cases hvisited : root ∈ resolver.visited
      · rw [visit_succ, if_pos hvisited]
        cases expectedName with
        | none => exact ⟨_, rfl, h.inv, rfl, List.Subset.refl _, hvisited, fun _ h ↦ (nomatch h)⟩
        | some name =>
            refine ⟨_, rfl, (validate_settles h hvisited rfl).bind fun _ hnamed ↦ ?_⟩
            exact ⟨h.inv, rfl, List.Subset.refl _, hvisited, fun other hother ↦ Option.some.inj hother ▸ hnamed⟩
      by_cases hvisiting : root ∈ resolver.visiting
      · rw [visit_succ, if_neg hvisited, if_pos hvisiting]
        exact ⟨_, rfl, .cycle h.reachable (h.path root hvisiting)⟩
      have hinner := visit_fresh depth h hvisited hvisiting fun resolver' dependency name hstack h' ↦ by
        apply ih h'
        rw [hstack, Finset.card_insert_of_notMem hvisiting]
        omega
      cases hinner with
      | inl hfault =>
          have ⟨hfault, message, hresult⟩ := hfault
          exact ⟨_, hresult false, hfault⟩
      | inr hleft =>
          have ⟨manifest, resolver', hread, hinv, hstack, hroots, hdependencies, hnamed, hresult⟩ := hleft
          refine ⟨_, hresult false, (leave_settles hinv (by rw [hstack]; exact Finset.mem_insert_self _ _) hread
            hdependencies).mono fun resolver'' ⟨hinv', hstack', hroots', hvisited'⟩ ↦ ?_⟩
          exact {
            inv := hinv'
            visiting := by rw [hstack', hstack, Finset.erase_insert hvisiting]
            roots := fun other hother ↦ by
              rw [hroots']
              exact List.mem_append_left _ (hroots hother)
            visited := hvisited'
            named := hnamed }

/-! ## 7. The root package -/

/-- The main file is added behind all others. -/
theorem leave_main (resolver : Resolver) (root : PathBuf) (manifest : PackageManifest) :
    resolver.leave fs root manifest true =
      resolver.leave fs root manifest false >>= fun resolver ↦ resolver.addMain fs root manifest.main true := by
  unfold Resolver.leave
  cases Resolver.addNatives fs root manifest.nativeDependencies.toList resolver with
  | error => rfl
  | ok resolver₁ =>
      cases hsources : Resolver.addSources fs root manifest.sources resolver₁ with
      | error =>
          simp only [bind, Except.bind]
          rw [hsources]
      | ok resolver₂ =>
          simp only [bind, Except.bind]
          rw [hsources]
          cases hmain : manifest.main with
          | none => rfl
          | some main =>
              simp only [Resolver.addMain, Resolver.addSource, bind, Except.bind]
              cases sourceFile fs root main with
              | error => rfl
              | ok file =>
                  by_cases hold : file ∈ resolver₂.sourcePaths
                  · simp only [pure, Except.pure, if_pos hold]
                  · simp only [pure, Except.pure, if_neg hold]

theorem not_fault (h : Inv fs root resolver) (hdone : ∀ other, other ∈ resolver.visited ↔ Reachable fs root other)
    {manifest : PackageManifest} (hread : readManifest fs root = .ok manifest)
    (hmain : ∀ relative, manifest.main = some relative → ∃ file, sourceFile fs root relative = .ok file) :
    ¬Fault fs root := by
  have hsettled {other : PathBuf} (hreachable : Reachable fs root other) {manifest : PackageManifest}
      (hread : readManifest fs other = .ok manifest) : Settled fs other manifest := by
    have ⟨manifest', hsettled⟩ := h.packages other ((h.visited_iff other).mp ((hdone other).mpr hreachable))
    have hsame := hsettled.read
    rw [hread] at hsame
    rwa [Except.ok.inj hsame]
  have hnames {other : PathBuf} {name : String} (hreachable : Reachable fs root other)
      (hnamed : NamedAt fs other name) : resolver.packageNames[name]? = some other :=
    (h.names name other).mpr ⟨.inr ((hdone other).mpr hreachable), hnamed⟩
  have hnatives {other directory : PathBuf} {name : String} (hreachable : Reachable fs root other)
      (hnative : NativeAt fs other name directory) :
      resolver.nativeDependencies[name]? = some directory :=
    (h.natives name directory).mpr
      ⟨other, (h.visited_iff other).mp ((hdone other).mpr hreachable), hnative⟩
  intro hfault
  cases hfault with
  | @manifest other hreachable hinvalid =>
      have ⟨manifest, hsettled⟩ := h.packages other ((h.visited_iff other).mp ((hdone other).mpr hreachable))
      exact hinvalid manifest hsettled.read
  | dependency hreachable hread hentry hinvalid =>
      have ⟨dependency, hroot, _⟩ := (hsettled hreachable hread).dependencies _ _ hentry
      exact hinvalid dependency hroot
  | nativeDependency hreachable hread hentry hinvalid =>
      have ⟨directory, hroot⟩ := (hsettled hreachable hread).natives _ _ hentry
      exact hinvalid directory hroot
  | key hreachable hentry hnamed hdiffer =>
      have ⟨manifest, path, hread, hpath, hroot⟩ := hentry
      have ⟨dependency, hroot', hnamed'⟩ := (hsettled hreachable hread).dependencies _ path hpath
      rw [hroot] at hroot'
      rw [← Except.ok.inj hroot'] at hnamed'
      exact hdiffer (hnamed'.unique hnamed)
  | name hreachable hreachable' hnamed hnamed' hdiffer =>
      have hsame := hnames hreachable hnamed
      rw [hnames hreachable' hnamed'] at hsame
      exact hdiffer (Option.some.inj hsame).symm
  | native hreachable hreachable' hnative hnative' hdiffer =>
      have hsame := hnatives hreachable hnative
      rw [hnatives hreachable' hnative'] at hsame
      exact hdiffer (Option.some.inj hsame).symm
  | source hreachable hread hlisted hinvalid =>
      have ⟨file, hfile⟩ := (hsettled hreachable hread).sources _ hlisted
      exact hinvalid file hfile
  | main hread' hmain' hinvalid =>
      rw [hread] at hread'
      rw [← Except.ok.inj hread'] at hmain'
      have ⟨file, hfile⟩ := hmain _ hmain'
      exact hinvalid file hfile
  | @cycle other hreachable hcycle =>
      exact h.order.acyclic h.nodup ((h.visited_iff other).mp ((hdone other).mpr hreachable)) hcycle

/-- What a package's resolution lists. -/
structure Resolved (fs : FileSystem) (start : PathBuf) (package : ResolvedPackage) : Prop where
  roots_nodup : package.packageRoots.Nodup
  mem_roots : ∀ root, root ∈ package.packageRoots ↔ Reachable fs start root
  dependencies_first : DependencyFirst (DependsOn fs) package.packageRoots
  sources_nodup : package.sources.Nodup
  mem_sources : ∀ file, file ∈ package.sources ↔
    (∃ root, Reachable fs start root ∧ file ∈ listed fs root) ∨ file ∈ mainFile fs start
  /-- A file stands behind those of all dependencies of the first package that lists it. -/
  sources_order : ∀ before root after, package.packageRoots = before ++ root :: after →
    ∀ file, file ∈ listed fs root ∨ root = start ∧ file ∈ mainFile fs start →
    (∀ other ∈ before, file ∉ listed fs other) →
    ∀ dependency, TransGen (DependsOn fs) root dependency → ∀ file' ∈ listed fs dependency,
      package.sources.idxOf file' < package.sources.idxOf file
  natives : ∀ name directory, (name, directory) ∈ package.nativeDependencies ↔
    ∃ root, Reachable fs start root ∧ NativeAt fs root name directory

theorem mainFile_eq {manifest : PackageManifest} (hread : readManifest fs root = .ok manifest) :
    mainFile fs root =
      manifest.main.toList.filterMap fun relative ↦ (sourceFile fs root relative).toOption := by
  rw [mainFile, hread]

/-- The first visit. -/
theorem callable_start (hroot : root ∈ fs.directories) : Callable fs root {} root none where
  inv := .empty root
  directory := hroot
  reachable := .refl
  path := fun _ h ↦ by simp at h
  expected := fun _ h ↦ nomatch h

theorem reachable_iff (h : Inv fs root resolver) (hvisited : root ∈ resolver.visited) (other : PathBuf) :
    other ∈ resolver.visited ↔ Reachable fs root other := by
  constructor
  · exact fun hother ↦ h.reachable other (.inr hother)
  · intro hreachable
    exact (h.visited_iff other).mpr (h.order.closed ((h.visited_iff root).mp hvisited) hreachable)

theorem resolved_of_inv (h : Inv fs root resolver) (hvisited : root ∈ resolver.visited)
    {sources : List PathBuf}
    (hsources : sources = (resolver.packageRoots.flatMap (listed fs) ++ mainFile fs root).eraseDups) :
    Resolved fs root ⟨sources, resolver.packageRoots, resolver.nativeDependencies.toList⟩ where
  roots_nodup := h.nodup
  mem_roots := fun other ↦ by rw [← reachable_iff h hvisited, h.visited_iff]
  dependencies_first := h.order
  sources_nodup := by
    rw [hsources]
    exact eraseDups_nodup _
  mem_sources := fun file ↦ by
    simp only [hsources, List.mem_eraseDups, List.mem_append, List.mem_flatMap, ← h.visited_iff,
      reachable_iff h hvisited]
  sources_order := fun before other after hsplit file _ hfirst dependency hpath file' hfile' ↦ by
    have hdependency : dependency ∈ before := h.order.before hsplit hpath
    have hsplit : resolver.packageRoots = before ++ other :: after := hsplit
    have hall : sources = (before.flatMap (listed fs) ++
        ((other :: after).flatMap (listed fs) ++ mainFile fs root)).eraseDups := by
      rw [hsources, hsplit, List.flatMap_append, List.append_assoc]
    have hnew : file ∉ before.flatMap (listed fs) := by
      intro hmem
      have ⟨package, hpackage, hfile⟩ := List.mem_flatMap.mp hmem
      exact hfirst package hpackage hfile
    show sources.idxOf file' < sources.idxOf file
    rw [hall]
    exact idxOf_eraseDups_lt (List.mem_flatMap.mpr ⟨dependency, hdependency, hfile'⟩) hnew
  natives := fun name directory ↦ by
    simp only [Std.ExtTreeMap.mem_toList_iff_getElem?_eq_some, h.natives, ← h.visited_iff,
      reachable_iff h hvisited]

/-- The search for a package ends. It fails where the path is no directory or something reachable is at fault,
and lists what is reachable otherwise. -/
theorem resolve_outcome (fs : FileSystem) (depth : Nat) (path : PathBuf)
    (hdepth : fs.directories.card < depth) :
    (∃ message, resolve fs depth path = some (.error message) ∧
      ∀ root, canonicalDirectory fs path "package root" = .ok root → Fault fs root) ∨
    ∃ root package, canonicalDirectory fs path "package root" = .ok root ∧
      resolve fs depth path = some (.ok package) ∧ ¬Fault fs root ∧ Resolved fs root package := by
  unfold resolve
  cases hroot : canonicalDirectory fs path "package root" with
  | error message => exact .inl ⟨message, rfl, fun root h ↦ nomatch h⟩
  | ok root =>
      have hdirectory : root ∈ fs.directories := by
        have hsettles : Settles True (fun resolved ↦ resolved ∈ fs.directories)
          (canonicalDirectory fs path "package root") := canonicalDirectory_settles _ _
        rw [hroot] at hsettles
        exact hsettles
      cases depth with
      | zero => omega
      | succ depth =>
          -- the root is visited like a dependency, from an empty stack and under no name
          have hcallable := callable_start hdirectory
          have hinner := visit_fresh depth hcallable (by simp) (by simp)
            fun resolver dependency name hstack h ↦ visit_settles depth h (by
              rw [hstack, Finset.card_insert_of_notMem (by simp)]
              omega)
          cases hinner with
          | inl hfault =>
              have ⟨hfault, message, hresult⟩ := hfault
              refine .inl ⟨message, ?_, fun other hother ↦ Except.ok.inj hother ▸ hfault⟩
              simp only [hresult true]
          | inr hleft =>
              have ⟨manifest, resolver, hread, hinv, hstack, hroots, hdependencies, _, hresult⟩ := hleft
              have hsettles := leave_settles hinv (by rw [hstack]; exact Finset.mem_insert_self _ _) hread
                hdependencies
              simp only [hresult true, leave_main]
              cases hleave : resolver.leave fs root manifest false with
              | error message =>
                  rw [hleave] at hsettles
                  exact .inl ⟨message, rfl, fun other hother ↦ Except.ok.inj hother ▸ hsettles⟩
              | ok resolver' =>
                  rw [hleave] at hsettles
                  have ⟨hinv', _, _, hvisited⟩ := hsettles
                  have hdone := reachable_iff hinv' hvisited
                  -- only the main package has a file of its own at the end
                  cases hmain : manifest.main with
                  | none =>
                      have hfine : ¬Fault fs root := not_fault hinv' hdone hread fun relative h ↦ by
                        rw [hmain] at h
                        cases h
                      refine .inr ⟨root, _, rfl, rfl, hfine, resolved_of_inv hinv' hvisited ?_⟩
                      rw [mainFile_eq hread, hmain, hinv'.sources]
                      simp
                  | some main =>
                      have hadd : Settles (Fault fs root) _ (resolver'.addSource fs root main) :=
                        addSource_settles (.main hread hmain) resolver' _ hinv'.sources hinv'.sourcePaths
                      simp only [bind, Except.bind, Resolver.addMain]
                      cases hadded : resolver'.addSource fs root main with
                      | error message =>
                          rw [hadded] at hadd
                          exact .inl ⟨message, rfl, fun other hother ↦ Except.ok.inj hother ▸ hadd⟩
                      | ok resolver'' =>
                          rw [hadded] at hadd
                          have ⟨file, paths, sources, hfile, hresolver'', hsources, _⟩ := hadd
                          have hfine : ¬Fault fs root := not_fault hinv' hdone hread fun relative h ↦ by
                            rw [hmain] at h
                            rw [← Option.some.inj h]
                            exact ⟨file, hfile⟩
                          rw [hresolver'']
                          refine .inr ⟨root, _, rfl, rfl, hfine, resolved_of_inv hinv' hvisited ?_⟩
                          rw [mainFile_eq hread, hmain]
                          simp only [Option.toList_some, List.filterMap_cons, List.filterMap_nil, hfile]
                          exact hsources

/-! ## 8. A file of two packages -/

def libraryManifest : PackageManifest where
  schema := 1
  name := "library"
  sources := ["test/check.stl", "library.stl"]
  main := none
  dependencies := ∅
  nativeDependencies := ∅

def libraryText : String :=
  "schema = 1\nname = \"library\"\nsources = [\"test/check.stl\", \"library.stl\"]\n"

def testManifest : PackageManifest where
  schema := 1
  name := "library-test"
  sources := ["check.stl"]
  main := none
  dependencies := Std.ExtTreeMap.empty.insert "library" ".."
  nativeDependencies := ∅

def testText : String :=
  "schema = 1\nname = \"library-test\"\nsources = [\"check.stl\"]\n\n[dependencies]\nlibrary = \"..\"\n"

/-- A package, and below it a package of its tests whose file both of them list. -/
def nestedFiles : FileSystem where
  canonicalize path :=
    match path with
    | "/library/test/.." => .ok "/library"
    | "/library" | "/library/test" | "/library/library.stl" | "/library/test/check.stl" => .ok path
    | _ => .error "No such file or directory (os error 2)"
  isDir path := path = "/library" ∨ path = "/library/test"
  isFile path := path = "/library/library.stl" ∨ path = "/library/test/check.stl"
  readToString path :=
    match path with
    | "/library/stainless-package.toml" => .ok libraryText
    | "/library/test/stainless-package.toml" => .ok testText
    | _ => .error "No such file or directory (os error 2)"
  fromStr source :=
    if source = libraryText then .ok libraryManifest
    else if source = testText then .ok testManifest
    else .error "TOML parse error"
  directories := {"/library", "/library/test"}
  canonicalize_mem := fun _ resolved _ h ↦ by simpa using h

def nestedPackage : ResolvedPackage where
  sources := ["/library/test/check.stl", "/library/library.stl"]
  packageRoots := ["/library", "/library/test"]
  nativeDependencies := []

theorem resolve_nestedFiles : resolve nestedFiles 3 "/library/test" = some (.ok nestedPackage) := rfl

theorem nestedFiles_resolved :
    ¬Fault nestedFiles "/library/test" ∧ Resolved nestedFiles "/library/test" nestedPackage := by
  cases resolve_outcome nestedFiles 3 "/library/test" (by decide) with
  | inl hfailed =>
      have ⟨message, hresult, _⟩ := hfailed
      rw [resolve_nestedFiles] at hresult
      cases hresult
  | inr hresolved =>
      have ⟨root, package, hroot, hresult, hfine, hall⟩ := hresolved
      have hlibrary : canonicalDirectory nestedFiles "/library/test" "package root" = .ok "/library/test" := rfl
      rw [hlibrary] at hroot
      rw [resolve_nestedFiles] at hresult
      cases hroot
      cases hresult
      exact ⟨hfine, hall⟩

/-- The tests' file stands before the other file of the package that they depend on. -/
theorem shared_file_first : ¬∀ (fs : FileSystem) (depth : Nat) (path root : PathBuf) (package : ResolvedPackage),
    canonicalDirectory fs path "package root" = .ok root → resolve fs depth path = some (.ok package) →
    ∀ other dependency, Reachable fs root other → TransGen (DependsOn fs) other dependency →
    ∀ file ∈ listed fs other, ∀ file' ∈ listed fs dependency,
      package.sources.idxOf file' < package.sources.idxOf file := by
  intro h
  have hdepends : DependsOn nestedFiles "/library/test" "/library" :=
    ⟨"library", testManifest, "..", rfl, rfl, rfl⟩
  have hlisted : listed nestedFiles "/library/test" = ["/library/test/check.stl"] := rfl
  have hlisted' : listed nestedFiles "/library" = ["/library/test/check.stl", "/library/library.stl"] := rfl
  have horder := h nestedFiles 3 "/library/test" "/library/test" nestedPackage rfl resolve_nestedFiles
    "/library/test" "/library" .refl (.single hdepends) "/library/test/check.stl" (by rw [hlisted]; simp)
    "/library/library.stl" (by rw [hlisted']; simp)
  exact absurd horder (by decide)

end Stainless.Packages
