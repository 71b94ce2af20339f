import ComponentHost.Component.Basic
import ComponentHost.Machine.Value

/-!
Entry points. A contract names a function that a script has to export from one interface, taking a
string and returning one. Whether a script keeps it is read off its types.
-/
set_option autoImplicit false

namespace ComponentHost

structure Contract where
  function : String
  deriving DecidableEq, Repr

/-- The contract that a script keeps unless another is asked for. -/
def Contract.standard : Contract := ⟨"execute"⟩

/-- Why there is no entry point, or no instance of it. -/
inductive EntryPointError where
  /-- No exported interface keeps the contract. -/
  | noImplementation (function : String)
  /-- More than one does. -/
  | ambiguous (interfaces : List String)
  | unloaded
  | instantiation (trap : Trap)
  deriving DecidableEq, Repr

def EntryPointError.message : EntryPointError → String
  | .noImplementation function =>
    s!"No Implementation: no exported interface provides \x60{function}: func( string ) -> string\x60"
  | .ambiguous interfaces => "Ambiguous Implementation: provided by " ++ ", ".intercalate interfaces
  | .unloaded => "Boundary Unloaded"
  | .instantiation trap => s!"Failed To Instantiate: {trap.message}"

/-- Why a call of an entry point has no result. -/
inductive InvocationError where
  | unloaded
  /-- A call panicked while it was in the instance. -/
  | lockRejected
  /-- The script does not export the interface. -/
  | invalidInterface (interface : String)
  /-- The interface has no such function. -/
  | invalidFunction (function : String)
  | trap (trap : Trap)
  /-- The result is no string. -/
  | unexpectedResult (values : List Value)
  | cancelled
  /-- The task that the call runs on panicked or was given up. -/
  | task (reason : String)

def InvocationError.message : InvocationError → String
  | .unloaded => "Boundary Unloaded"
  | .lockRejected => "Lock Rejected"
  | .invalidInterface interface => s!"Invalid Interface: {interface}"
  | .invalidFunction function => s!"Invalid Function: {function}"
  | .trap t => s!"Runtime Exception: {t.message}"
  | .unexpectedResult values => "Unexpected Result: " ++ ", ".intercalate (values.map Value.word)
  | .cancelled => "Cancelled"
  | .task reason => s!"Invocation Task Failed: {reason}"

/-- The function of an interface that keeps a contract. -/
structure EntryPoint where
  interface : String
  function : String
  deriving DecidableEq, Repr

namespace Contract

/-- Whether a function takes one string and returns one. -/
def isStringToString (type : Component.Signature) : Bool :=
  match type.params, type.results with
  | [.string], [.string] => true
  | _, _ => false

/-- Whether a member of an interface is the function of a contract. -/
def isFunction (contract : Contract) : String × Component.Extern → Bool
  | (name, .func _ type) => name == contract.function && isStringToString type
  | _ => false

def isKeptBy (contract : Contract) : Component.Extern → Bool
  | .interface exports => exports.any contract.isFunction
  | _ => false

/-- The exported interfaces that keep a contract, in the order of the exports. -/
def candidates (contract : Contract) (component : Component) : List String :=
  (component.exports.filter fun (_, e) => contract.isKeptBy e).map Prod.fst

/-- The entry point of a component, when just one interface keeps the contract. -/
def resolve (contract : Contract) (component : Component) : Except EntryPointError EntryPoint :=
  match contract.candidates component with
  | [] => .error (.noImplementation contract.function)
  | [interface] => .ok ⟨interface, contract.function⟩
  | interfaces => .error (.ambiguous interfaces)

end Contract

end ComponentHost
