import ComponentHost.Compiler
import ComponentHost.Machine.Trap
import ComponentHost.Manifest

/-!
Providers: the component that stands for an import name. The manifest is asked first; a name that it
does not list, or lists with a path that leads to no file, is provided by the first reference that
exports it.
-/
set_option autoImplicit false

namespace ComponentHost

/-- Why a script cannot be linked with what it imports. -/
inductive LinkError where
  /-- Nothing provides the name. -/
  | unresolved (name : String)
  /-- Loading the name led back to it. -/
  | cycle (name : String)
  /-- The component for the name does not export it. -/
  | missingExport (name : String)
  /-- The import is no instance, or a member of it is no function. -/
  | unsupportedImport (name : String)
  /-- The manifest's file for a name has no component. -/
  | invalidDependency (path : Path) (fault : Component.Fault)
  /-- The name is linked already. -/
  | linkedTwice (name : String)
  /-- Making the instance for the name failed. -/
  | instantiation (name : String) (trap : Trap)
  deriving Repr

def LinkError.message : LinkError → String
  | .unresolved name => s!"Unresolved Dependency: {name}"
  | .cycle name => s!"Dependency Cycle: {name} depends on itself"
  | .missingExport name => s!"Missing Export: the component resolved for {name} does not export it"
  | .unsupportedImport name => s!"Unsupported Import: {name}"
  | .invalidDependency path fault => s!"Invalid Dependency {path.text}: {fault.message}"
  | .linkedTwice name => s!"Failed To Link {name}: map entry \x60{name}\x60 defined twice"
  | .instantiation name trap => s!"Failed To Instantiate {name}: {trap.message}"

structure Sources where
  fs : FileSystem
  manifest : Manifest
  references : List LoadedReference

namespace Sources

def locate (sources : Sources) (name : String) : Except LinkError Component :=
  match sources.manifest.resolve? sources.fs name with
  | some path => (Component.load sources.fs path).mapError (.invalidDependency path)
  | none =>
    match sources.references.find? (·.exports name) with
    | some reference => .ok reference.component
    | none => .error (.unresolved name)

/-- The component for an import name, when it exports the name. -/
def provider (sources : Sources) (name : String) : Except LinkError Component :=
  match sources.locate name with
  | .error e => .error e
  | .ok component =>
    if component.exportNames.contains name then .ok component else .error (.missingExport name)

/-- The components that the manifest or the references can provide. -/
def components (sources : Sources) : List Component :=
  (sources.manifest.listing.filterMap fun (name, _) => (sources.locate name).toOption)
    ++ sources.references.map LoadedReference.component

/-- The import names of a script and of every component that can be provided. -/
def names (sources : Sources) (script : Component) : List String :=
  ((script :: sources.components).flatMap Component.importNames).eraseDups

end Sources

end ComponentHost
