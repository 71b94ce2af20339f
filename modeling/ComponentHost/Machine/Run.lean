import ComponentHost.Machine.Basic

/-!
Runs: making an instance in a store of its own, and calling a function of it, in the company of the
stores that provide what it imports. A run that does not end in the steps it is given has no answer.
-/
set_option autoImplicit false

namespace ComponentHost

inductive Stall where
  /-- The steps were not enough. -/
  | unfinished
  /-- A call waits for itself. -/
  | blocked
  deriving DecidableEq, Repr

structure Visit where
  /-- The stores that provide what the main store imports. -/
  providers : Array Store
  /-- The main store. -/
  store : Store
  signals : Signals
  result : Except Trap (List Value)

namespace Machine

/-- A machine that is at rest, with the main store behind its providers. -/
def atRest (providers : Array Store) (store : Store) (signals : Signals) : Machine :=
  ⟨providers.push store, [], signals⟩

def visit (m : Machine) (result : Except Trap (List Value)) : Visit where
  providers := m.stores.pop
  store := (m.stores.back?).getD default
  signals := m.signals
  result

def finish (fuel : Nat) (start : Next) : Except Stall Visit :=
  match runFrom fuel start with
  | (m, .done values) => .ok (m.visit (.ok values))
  | (m, .failed trap) => .ok (m.visit (.error trap))
  | (_, .blocked) => .error .blocked
  | (_, .unfinished) => .error .unfinished

/-- Makes the instance of the component of a store. -/
def instantiate (fuel : Nat) (providers : Array Store) (store : Store) : Except Stall Visit :=
  finish fuel ((atRest providers store .quiet).begin providers.size fun store =>
    .go store ⟨.build store.component.steps, [], 0⟩)

/-- Calls a member of an interface that a store exports, on behalf of whoever holds a token. -/
def invoke (fuel : Nat) (providers : Array Store) (store : Store) (signals : Signals)
    (interface function : String) (args : List Value) (results : Nat) (token : Option Token) :
    Except Stall Visit :=
  finish fuel ((atRest providers store signals).begin providers.size fun store =>
    store.receive interface function args results token)

end Machine

end ComponentHost
