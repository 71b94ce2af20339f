import ComponentHost.Component.Type

/-!
Checked components. A component is what it imports, the steps that make its core instances, and what
it exports; every reference is a number of something that a step before has made.
-/
set_option autoImplicit false

namespace ComponentHost

namespace Component

/-- A function of a component that a core function implements. -/
structure Lift where
  type : Signature
  /-- The core function. -/
  func : Nat
  /-- The memory in which values are passed. -/
  memory : Option Nat
  /-- The core function that allocates memory. -/
  realloc : Option Nat
  /-- The core function that is called when the results have been read. -/
  postReturn : Option Nat
  deriving Repr

inductive Callee where
  /-- An import, under the names that lead to it. -/
  | imported (names : List String)
  | lifted (lift : Lift)
  deriving Repr

inductive Extern where
  | func (callee : Callee) (type : Signature)
  | interface (exports : List (String × Extern))
  | module
  | component
  | type
  deriving Repr

/-- One step of making an instance of a component. -/
inductive Step where
  /-- Makes an instance of a core module, with instances for the names that it imports. -/
  | instantiate (module : Core.Module) (args : List (String × Nat))
  /-- Puts core things under names into an instance. -/
  | bundle (exports : List (String × Core.Kind × Nat))
  /-- Takes a core thing out of an instance. -/
  | alias (kind : Core.Kind) (owner : Nat) (name : String)
  /-- Makes a core function that calls a function of an interface. -/
  | lower (callee : Callee) (type : Signature) (memory realloc : Option Nat)
  deriving Repr

end Component

structure Component where
  imports : List (String × Component.ExternType)
  steps : List Component.Step
  exports : List (String × Component.Extern)
  deriving Repr, Inhabited

namespace Component

def empty : Component := ⟨[], [], []⟩

def importNames (c : Component) : List String := c.imports.map Prod.fst

def exportNames (c : Component) : List String := c.exports.map Prod.fst

def export? (c : Component) (name : String) : Option Extern := c.exports.lookup name

/-- The thing under a name in an exported instance. -/
def member? (c : Component) (interface name : String) : Option Extern :=
  match c.export? interface with
  | some (.interface exports) => exports.lookup name
  | _ => none

mutual

/-- The thing that an import of a type stands for. -/
def Extern.ofType (names : List String) : ExternType → Extern
  | .func t => .func (.imported names) t
  | .interface exports => .interface (Extern.ofTypes names exports)
  | .module => .module
  | .component => .component
  | .type => .type

/-- The things that the exports of an imported instance stand for. -/
def Extern.ofTypes (names : List String) : List (String × ExternType) → List (String × Extern)
  | [] => []
  | (name, t) :: rest => (name, Extern.ofType (names ++ [name]) t) :: Extern.ofTypes names rest

end

mutual

/-- Whether a thing can be exported from a component that is run: neither a function that is only
passed on nor a component is. -/
def Extern.isRunnable : Extern → Bool
  | .func (.imported _) _ => false
  | .func (.lifted _) _ => true
  | .interface exports => Extern.areRunnable exports
  | .module => true
  | .component => false
  | .type => true

/-- Whether all members of an instance can be exported from a component that is run. -/
def Extern.areRunnable : List (String × Extern) → Bool
  | [] => true
  | (_, e) :: rest => e.isRunnable && Extern.areRunnable rest

end

end Component

end ComponentHost
