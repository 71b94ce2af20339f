import ComponentHost.Boundary.Load
import ComponentHost.EntryPoint
import ComponentHost.Text.Quoted

/-!
One-line descriptions of boundaries and of what they hand out, for whoever looks at a host while it
runs. A description shows names and identities, not what is inside a component or a store.
-/
set_option autoImplicit false

namespace ComponentHost

/-- A description: a name and the fields that are shown, with a mark if there are others. -/
def describe (name : String) (fields : List (String × String)) (hasMore : Bool) : String :=
  let shown := fields.map fun (field, value) => s!"{field}: {value}"
  name ++ " \x7b " ++ ", ".intercalate (if hasMore then shown ++ [".."] else shown) ++ " \x7d"

def describeList (items : List String) : String := "[" ++ ", ".intercalate items ++ "]"

def Severity.description : Severity → String
  | .warning => "Warning"
  | .error => "Error"

def Location.description (l : Location) : String :=
  describe "Location" [("line", toString l.line), ("column", toString l.column)] false

def Diagnostic.description (d : Diagnostic) : String :=
  describe "Diagnostic" [
    ("severity", d.severity.description),
    ("location", match d.location with
      | none => "None"
      | some l => s!"Some({l.description})"),
    ("message", Text.quote d.message)] false

def OptimizationLevel.description : OptimizationLevel → String
  | .debug => "Debug"
  | .release => "Release"

/-- The description of a compiled script. The size of its binary form is not known. -/
def CompiledScript.description (c : CompiledScript) : String :=
  describe "CompiledModule" [
    ("id", c.id.text),
    ("optimization_level", c.script.level.description),
    ("component", Text.quote "<Component>"),
    ("binary_len", "N"),
    ("references", describeList (c.script.references.map fun r => Text.quotePath r.path.text)),
    ("warnings", describeList (c.script.warnings.map Diagnostic.description))] true

namespace Boundary

def description (b : Boundary) : String :=
  describe "ScriptContext" [
    ("id", b.id.text),
    ("base_dir", Text.quotePath b.baseDir.text),
    ("lifecycle", b.lifecycle.word)] true

def moduleDescription (b : Boundary) (c : CompiledScript) : String :=
  describe "LoadedModule" [("context", b.id.text), ("module", c.description)] false

def entryDescription (b : Boundary) (entry : EntryPoint) : String :=
  describe "EntryPoint" [
    ("context", b.id.text),
    ("interface", Text.quote entry.interface),
    ("function", Text.quote entry.function)] true

def instanceDescription (b : Boundary) (entry : EntryPoint) : String :=
  describe "ScriptInstance" [
    ("context", b.id.text),
    ("interface", Text.quote entry.interface),
    ("function", Text.quote entry.function),
    ("store", Text.quote "<Store>")] true

def observerDescription (b : Boundary) : String :=
  describe "ObservationHandle" [("id", b.id.text), ("inner", "(Weak)"), ("module", "(Weak)")] false

end Boundary

end ComponentHost
