import ComponentHost.Component.File
import ComponentHost.Diagnostic
import ComponentHost.Reference
import ComponentHost.Settings

/-!
Compiling a script: reading its text, loading the references, and comparing what the script imports
with what they export. The diagnostics come in a fixed order: references that do not load, imports
that no reference exports, and references that export nothing the script imports.
-/
set_option autoImplicit false

namespace ComponentHost

structure LoadedReference where
  path : Path
  component : Component

def LoadedReference.exports (r : LoadedReference) (name : String) : Bool :=
  r.component.exportNames.contains name

structure Script where
  level : OptimizationLevel
  component : Component
  references : List LoadedReference
  /-- The diagnostics of a compilation that succeeded. -/
  warnings : List Diagnostic

structure CompileError where
  diagnostics : List Diagnostic
  deriving DecidableEq

def CompileError.message (e : CompileError) : String :=
  "Compilation Failed: " ++ "; ".intercalate (e.diagnostics.map Diagnostic.display)

structure Compiler where
  references : ReferenceSet
  warningsAsErrors : Bool

namespace Compiler

def empty (cwd libraryDir : Path) : Compiler := ⟨.empty cwd libraryDir, false⟩

/-- The diagnostic for a source that is no component. -/
def faultDiagnostic : Component.Fault → Diagnostic
  | .malformed fault text => .ofRendering (fault.render text)
  | fault => .error fault.message

def failures (loads : List (Path × Except Component.Fault Component)) : List Diagnostic :=
  loads.filterMap fun
    | (path, .error fault) =>
      some (.error s!"reference \x60{path.text}\x60 could not be loaded: {fault.message}")
    | (_, .ok _) => none

def loaded (loads : List (Path × Except Component.Fault Component)) : List LoadedReference :=
  loads.filterMap fun
    | (path, .ok component) => some ⟨path, component⟩
    | (_, .error _) => none

def unresolved (component : Component) (references : List LoadedReference) : List Diagnostic :=
  (component.importNames.filter fun name => !references.any (·.exports name)).map fun name =>
    .error s!"unresolved import \x60{name}\x60: no reference exports it"

/-- The warnings for references that export nothing the script imports. -/
def unused (component : Component) (references : List LoadedReference) : List Diagnostic :=
  (references.filter fun r => !component.importNames.any r.exports).map fun r =>
    .warning s!"reference \x60{r.path.text}\x60 is not used by the script"

/-- Compiles a component against references that have been loaded or not. -/
def finish (compiler : Compiler) (level : OptimizationLevel) (component : Component)
    (loads : List (Path × Except Component.Fault Component)) : Except CompileError Script :=
  let references := loaded loads
  let diagnostics := failures loads ++ unresolved component references ++ unused component references
  if Diagnostic.hasErrors diagnostics || (compiler.warningsAsErrors && !diagnostics.isEmpty) then
    .error ⟨diagnostics⟩
  else .ok ⟨level, component, references, diagnostics⟩

/-- Compiles a source. Blanks around it are dropped first. -/
def compile (compiler : Compiler) (fs : FileSystem) (level : OptimizationLevel) (source : String) :
    Except CompileError Script :=
  let source := Text.trim source
  if source.isEmpty then .error ⟨[.error "script source is empty"]⟩
  else
    match Component.parse source with
    | .error fault => .error ⟨[faultDiagnostic fault]⟩
    | .ok component =>
      compiler.finish level component
        (compiler.references.paths.map fun path => (path, Component.load fs path))

end Compiler

end ComponentHost
