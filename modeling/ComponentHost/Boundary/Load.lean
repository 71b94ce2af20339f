import ComponentHost.Boundary.Basic
import ComponentHost.Manifest
import ComponentHost.Settings

/-!
Loading a script into a boundary of its own. What is wrong with the script or its references is
reported as diagnostics, and the boundary is there all the same; only a missing base directory and a
bad manifest keep a boundary from being made.
-/
set_option autoImplicit false

namespace ComponentHost

inductive LoadError where
  | baseDirectoryMissing (path : Path)
  | manifest (error : ManifestError)
  deriving DecidableEq, Repr

def Share.context : Share := ⟨true, false⟩

/-- The share of a handle to a loaded module. -/
def Share.module : Share := ⟨true, true⟩

/-- The share of a handle to a compiled script alone. -/
def Share.compiled : Share := ⟨false, true⟩

structure LoadRequest where
  baseDir : Path
  source : String
  references : List String
  deriving Repr

/-- A boundary that was made, with everything there is to say about it. -/
structure LoadOutcome where
  boundary : Boundary
  diagnostics : List Diagnostic

namespace LoadOutcome

def hasModule (outcome : LoadOutcome) : Bool := outcome.boundary.isActive

end LoadOutcome

namespace Boundary

/-- A new boundary with one handle to it, and one to its module if there is one. -/
def make (id : Id) (baseDir : Path) (maxMemoryBytes : Option Nat)
    (loaded : Option (CompiledScript × Linked)) : Boundary where
  id
  baseDir
  maxMemoryBytes
  compiled := loaded.map Prod.fst
  content := match loaded with
    | some (_, linked) => .active linked
    | none => .created
  hasCallback := true
  fired := 0
  owners := if loaded.isSome then 2 else 1
  holders := if loaded.isSome then 2 else 0

/-- The warning for a reference that leads to no file. -/
def unresolvedReference (name : String) : Diagnostic :=
  .warning s!"reference \x60{name}\x60 could not be resolved"

structure Attempt where
  diagnostics : List Diagnostic
  loaded : Option (Script × Linked)

/-- Compiles and links a source. When warnings are errors, a reference that was not resolved keeps the
module from being linked. -/
def attempt (fs : FileSystem) (fuel : Nat) (settings : Settings) (manifest : Manifest)
    (compiler : Compiler) (unresolved : List Diagnostic) (source : String) : Except Stall Attempt :=
  match compiler.compile fs settings.optimization source with
  | .error e => .ok ⟨unresolved ++ e.diagnostics, none⟩
  | .ok script =>
    let diagnostics := unresolved ++ script.warnings
    if settings.warningsAsErrors && !unresolved.isEmpty then .ok ⟨diagnostics, none⟩
    else
      match Linked.link fuel ⟨fs, manifest, script.references⟩
          (settings.maxMemoryBytes.map UInt64.toNat) script.component with
      | .error stall => .error stall
      | .ok (.error e) => .ok ⟨diagnostics ++ [.error e.message], none⟩
      | .ok (.ok linked) => .ok ⟨diagnostics, some (script, linked)⟩

def load (fs : FileSystem) (fuel : Nat) (settings : Settings) (id scriptId : Id)
    (request : LoadRequest) : Except Stall (Except LoadError LoadOutcome) :=
  if !fs.isDir request.baseDir then .ok (.error (.baseDirectoryMissing request.baseDir))
  else
    let baseDir := (Path.absolute? fs.cwd request.baseDir).getD request.baseDir
    match Manifest.load fs baseDir with
    | .error e => .ok (.error (.manifest e))
    | .ok manifest =>
      let (references, failed) := (ReferenceSet.empty fs.cwd baseDir).addAll fs request.references
      match attempt fs fuel settings manifest ⟨references, settings.warningsAsErrors⟩
          (failed.map unresolvedReference) request.source with
      | .error stall => .error stall
      | .ok result =>
        let loaded := result.loaded.map fun (script, linked) => (⟨scriptId, script⟩, linked)
        .ok (.ok ⟨make id baseDir (settings.maxMemoryBytes.map UInt64.toNat) loaded,
          result.diagnostics⟩)

end Boundary

end ComponentHost
