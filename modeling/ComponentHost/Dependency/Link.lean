import ComponentHost.Dependency.Plan
import ComponentHost.Machine.Run

/-!
Linking: making an instance of every provider of a plan, in the order of their numbers. A provider
that fails is what the linking fails with, even if the plan itself fails behind it.
-/
set_option autoImplicit false

namespace ComponentHost

/-- A script with instances of everything that it imports. -/
structure Linked where
  script : Component
  /-- The stores of the providers, in the order of their numbers. -/
  providers : Array Store
  /-- The numbers of the providers of the script's imports. -/
  links : List (String × Nat)

namespace Provider

def store (p : Provider) (maxMemoryBytes : Option Nat) : Store :=
  .fresh p.component maxMemoryBytes p.links

end Provider

namespace Linked

/-- Makes instances of providers behind those that there are. -/
def instantiateAll (fuel : Nat) (maxMemoryBytes : Option Nat) (stores : Array Store) :
    List Provider → Except Stall (Except LinkError (Array Store))
  | [] => .ok (.ok stores)
  | p :: rest =>
    match Machine.instantiate fuel stores (p.store maxMemoryBytes) with
    | .error stall => .error stall
    | .ok visit =>
      match visit.result with
      | .error trap => .ok (.error (.instantiation p.name trap))
      | .ok _ => instantiateAll fuel maxMemoryBytes (visit.providers.push visit.store) rest

def link (fuel : Nat) (sources : Sources) (maxMemoryBytes : Option Nat) (script : Component) :
    Except Stall (Except LinkError Linked) :=
  let (plan, outcome) := Plan.ofScript sources script
  match instantiateAll fuel maxMemoryBytes #[] plan.providers with
  | .error stall => .error stall
  | .ok (.error e) => .ok (.error e)
  | .ok (.ok stores) => .ok (outcome.map fun links => ⟨script, stores, links⟩)

/-- Makes an instance of the script in a store of its own. -/
def instantiate (fuel : Nat) (linked : Linked) (maxMemoryBytes : Option Nat) : Except Stall Visit :=
  Machine.instantiate fuel linked.providers (.fresh linked.script maxMemoryBytes linked.links)

end Linked

end ComponentHost
