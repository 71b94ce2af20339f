import ComponentHost.Dependency.Provider

/-!
The plan by which the imports of a script are provided. Every name gets one slot, which is open while
the imports of its provider are looked at, so a name that is met again in an open slot lies on a
cycle. Providers are numbered when their imports are done: each imports only from smaller numbers.
-/
set_option autoImplicit false

namespace ComponentHost

inductive Slot where
  /-- The imports of its provider are being looked at. -/
  | loading
  /-- Its provider has a number. -/
  | loaded (number : Nat)
  deriving DecidableEq, Repr

/-- A component that provides a name, with the numbers of the providers of its own imports. -/
structure Provider where
  name : String
  component : Component
  links : List (String × Nat)

/-- The providers that have been found, in the order of their numbers. -/
structure Plan where
  slots : List (String × Slot)
  providers : List Provider

namespace Plan

def empty : Plan := ⟨[], []⟩

/-- The plan with a slot for a name, instead of the one it had. -/
def fill (plan : Plan) (name : String) (slot : Slot) : Plan :=
  { plan with slots := (name, slot) :: plan.slots.filter (·.1 != name) }

/-- The plan with one more provider, whose name has its slot filled. -/
def add (plan : Plan) (p : Provider) : Plan :=
  let number := plan.providers.length
  { plan.fill p.name (.loaded number) with providers := plan.providers ++ [p] }

/-- Checks that the members of an import are functions, each of which is linked once. -/
def checkMembers (name : String) : List String → List (String × Component.ExternType) →
    Except LinkError Unit
  | _, [] => .ok ()
  | before, (member, .func _) :: rest =>
    if before.contains member then .error (.linkedTwice s!"{name}#{member}")
    else checkMembers name (member :: before) rest
  | _, (member, _) :: _ => .error (.unsupportedImport s!"{name}#{member}")

/-- Links imports one behind the other, given how a name gets a number. -/
def linkImports (number : Plan → String → Plan × Except LinkError Nat) (plan : Plan)
    (links : List (String × Nat)) :
    List (String × Component.ExternType) → Plan × Except LinkError (List (String × Nat))
  | [] => (plan, .ok links)
  | (name, .interface members) :: rest =>
    match number plan name with
    | (plan, .error e) => (plan, .error e)
    | (plan, .ok n) =>
      if (links.lookup name).isSome then (plan, .error (.linkedTwice name))
      else
        match checkMembers name [] members with
        | .error e => (plan, .error e)
        | .ok () => linkImports number plan (links ++ [(name, n)]) rest
  | (name, _) :: _ => (plan, .error (.unsupportedImport name))

/-- The number of the provider of a name, which is found if it has none yet. Imports that are nested
deeper than the first argument says are taken for a cycle: a chain of imports that is longer than there
are names comes back to one of them. -/
def resolve (sources : Sources) : Nat → Plan → String → Plan × Except LinkError Nat
  | 0, plan, name => (plan, .error (.cycle name))
  | depth + 1, plan, name =>
    match plan.slots.lookup name with
    | some (.loaded number) => (plan, .ok number)
    | some .loading => (plan, .error (.cycle name))
    | none =>
      let plan := plan.fill name .loading
      match sources.provider name with
      | .error e => (plan, .error e)
      | .ok component =>
        match linkImports (resolve sources depth) plan [] component.imports with
        | (plan, .error e) => (plan, .error e)
        | (plan, .ok links) =>
          let number := plan.providers.length
          (plan.add ⟨name, component, links⟩, .ok number)

/-- The plan for a script, with the numbers of the providers of its imports. The names that there are
bound how deep imports can be nested. -/
def ofScript (sources : Sources) (script : Component) :
    Plan × Except LinkError (List (String × Nat)) :=
  linkImports (resolve sources ((sources.names script).length + 1)) empty [] script.imports

end Plan

end ComponentHost
