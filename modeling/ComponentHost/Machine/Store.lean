import ComponentHost.Component.Basic
import ComponentHost.Core.Memory

/-!
Stores. A store holds one instance of a component: the core functions, memories, tables and globals of
its core instances, each at an address, and the numbers under which the component knows them.
-/
set_option autoImplicit false

namespace ComponentHost

/-- A token by which whoever started a call can have it interrupted. -/
structure Token where
  id : Nat
  deriving DecidableEq, Repr

inductive Function where
  /-- A function of a core module, in an instance of it. -/
  | guest (owner : Nat) (func : Core.Func)
  /-- A function that calls another component's; memory and allocation are addresses. -/
  | lowered (callee : Component.Callee) (type : Component.Signature) (memory realloc : Option Nat)
  deriving Repr

/-- The addresses of what a core instance has, in the order of the module's numbers. -/
structure CoreInstance where
  funcs : Array Nat
  tables : Array Nat
  memories : Array Nat
  globals : Array Nat
  deriving Repr, Inhabited

structure Store where
  component : Component
  /-- The most bytes that a memory may have. -/
  maxMemoryBytes : Option Nat
  /-- The number of the store that provides each import. -/
  links : List (String × Nat)
  functions : Array Function
  memories : Array Core.Memory
  /-- The sizes of tables; no table has an item that is set. -/
  tables : Array Nat
  globals : Array UInt32
  instances : Array CoreInstance
  -- what the component knows by number, as addresses
  coreFuncs : Array Nat
  coreTables : Array Nat
  coreMemories : Array Nat
  coreGlobals : Array Nat
  coreInstances : Array (List (String × Core.Kind × Nat))
  /-- Whether the component may be called. It may not while a call is in it, nor after one failed. -/
  enterable : Bool
  /-- Whether the component may call others. -/
  leavable : Bool
  /-- The token of the call that is in the store. -/
  token : Option Token
  deriving Inhabited

namespace Store

/-- A store in which nothing has been made yet. -/
def fresh (component : Component) (maxMemoryBytes : Option Nat) (links : List (String × Nat)) : Store where
  component
  maxMemoryBytes
  links
  functions := #[]
  memories := #[]
  tables := #[]
  globals := #[]
  instances := #[]
  coreFuncs := #[]
  coreTables := #[]
  coreMemories := #[]
  coreGlobals := #[]
  coreInstances := #[]
  enterable := true
  leavable := true
  token := none

/-- The address of a core thing that the component knows by number. -/
def address? (store : Store) (kind : Core.Kind) (i : Nat) : Option Nat :=
  match kind with
  | .func => store.coreFuncs[i]?
  | .table => store.coreTables[i]?
  | .memory => store.coreMemories[i]?
  | .global => store.coreGlobals[i]?

/-- Makes a core thing known under the next number. -/
def know (store : Store) (kind : Core.Kind) (address : Nat) : Store :=
  match kind with
  | .func => { store with coreFuncs := store.coreFuncs.push address }
  | .table => { store with coreTables := store.coreTables.push address }
  | .memory => { store with coreMemories := store.coreMemories.push address }
  | .global => { store with coreGlobals := store.coreGlobals.push address }

def memory? (store : Store) (address : Option Nat) : Option Core.Memory :=
  address.bind fun a => store.memories[a]?

def updateMemory (store : Store) (address : Nat) (f : Core.Memory → Core.Memory) : Store :=
  { store with memories := store.memories.modify address f }

/-- Whether so many bytes at an address are in the memory at some place. -/
def memoryHolds (store : Store) (memory : Option Nat) (address bytes : Nat) : Bool :=
  match store.memory? memory with
  | none => false
  | some m => m.holds address bytes

def changeMemory (store : Store) (memory : Option Nat) (f : Core.Memory → Core.Memory) : Store :=
  match memory with
  | none => store
  | some a => store.updateMemory a f

def memoryBytes (store : Store) : Nat := store.memories.foldl (fun n m => n + m.size) 0

/-- The address of the first memory of a core instance. -/
def firstMemory? (store : Store) (owner : Nat) : Option Nat :=
  (store.instances[owner]?).bind fun i => i.memories[0]?

end Store

end ComponentHost
