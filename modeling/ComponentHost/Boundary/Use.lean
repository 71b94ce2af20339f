import ComponentHost.Boundary.Basic
import ComponentHost.EntryPoint

/-!
Using what is loaded in a boundary: finding its entry point, making instances of the script, and
calling them. Once unloading has been asked for, every use is refused and changes nothing.
-/
set_option autoImplicit false

namespace ComponentHost

/-- What a call of an entry point leaves behind. -/
structure Execution where
  boundary : Boundary
  /-- The store of the instance that was called. -/
  store : Store
  signals : Signals
  result : Except InvocationError String

namespace Boundary

def resolve (b : Boundary) (contract : Contract) : Except EntryPointError EntryPoint :=
  match b.content with
  | .active linked => contract.resolve linked.script
  | _ => .error .unloaded

def withProviders (b : Boundary) (providers : Array Store) : Boundary :=
  match b.content with
  | .active linked => { b with content := .active { linked with providers } }
  | _ => b

def instantiate (b : Boundary) (fuel : Nat) : Except Stall (Boundary × Except EntryPointError Store) :=
  match b.content with
  | .active linked =>
    match linked.instantiate fuel b.maxMemoryBytes with
    | .error stall => .error stall
    | .ok visit =>
      match visit.result with
      | .error trap => .ok (b.withProviders visit.providers, .error (.instantiation trap))
      | .ok _ => .ok (b.withProviders visit.providers, .ok visit.store)
  | _ => .ok (b, .error .unloaded)

/-- Why an entry point cannot be called in a store, if it cannot. -/
def missing? (store : Store) (entry : EntryPoint) : Option InvocationError :=
  match store.component.export? entry.interface with
  | none => some (.invalidInterface entry.interface)
  | some _ =>
    match store.component.member? entry.interface entry.function with
    | some (.func _ _) => none
    | _ => some (.invalidFunction s!"{entry.interface}#{entry.function}")

/-- What the result of a run means to whoever called, given whether the call was cancelled. -/
def outcome (isCancelled : Bool) : Except Trap (List Value) → Except InvocationError String
  | .ok [.string text] => .ok text
  | .ok values => .error (.unexpectedResult values)
  | .error trap => .error (if isCancelled then .cancelled else .trap trap)

/-- Calls an entry point in the store of an instance. A token that has fired already keeps the call
from starting. -/
def execute (b : Boundary) (fuel : Nat) (store : Store) (entry : EntryPoint) (argument : String)
    (token : Option Token) (signals : Signals) : Except Stall Execution :=
  match b.content with
  | .active linked =>
    if token.any signals.hasFired then .ok ⟨b, store, signals, .error .cancelled⟩
    else
      match missing? store entry with
      | some e => .ok ⟨b, store, signals, .error e⟩
      | none =>
        match Machine.invoke fuel linked.providers store signals entry.interface entry.function
            [.string argument] 1 token with
        | .error stall => .error stall
        | .ok visit =>
          let isCancelled := token.any visit.signals.hasFired
          .ok ⟨b.withProviders visit.providers, visit.store, visit.signals,
            outcome isCancelled visit.result⟩
  | _ => .ok ⟨b, store, signals, .error .unloaded⟩

end Boundary

end ComponentHost
