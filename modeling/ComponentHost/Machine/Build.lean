import ComponentHost.Machine.Guest

/-!
Making the instance of a component in its store, step by step.
-/
set_option autoImplicit false

namespace ComponentHost

namespace Store

/-- The things that a module imports, as addresses, from instances that are given under names. -/
def importAddresses (store : Store) (module : Core.Module) (args : List (String × Nat)) :
    List (Core.Kind × Nat) :=
  module.imports.filterMap fun i => do
    let owner ← args.lookup i.module
    let exports ← store.coreInstances[owner]?
    exports.lookup i.name

def ofKind (kind : Core.Kind) (things : List (Core.Kind × Nat)) : List Nat :=
  things.filterMap fun (k, a) => if k = kind then some a else none

def newAddresses (first count : Nat) : List Nat := List.range' first count

/-- Makes the memories of a module, unless one is larger than memories may be. -/
def makeMemories (store : Store) : List Core.Limits → Store × Option Trap
  | [] => (store, none)
  | limits :: rest =>
    if store.maxMemoryBytes.all (limits.min * Core.pageSize ≤ ·) then
      let memory := Core.Memory.zeros limits.min (limits.max.getD Core.maxPages)
      { store with memories := store.memories.push memory }.makeMemories rest
    else (store, some (.memoryLimit limits.min))

def constant (store : Store) (owner : Nat) (code : List Core.Instr) : UInt32 :=
  let step (operands : List UInt32) (i : Core.Instr) : List UInt32 :=
    match i, operands with
    | .simple (.const w), rest => w :: rest
    | .simple (.binary op), b :: a :: rest => (op.apply a b).toOption.getD 0 :: rest
    | .globalGet n, rest => store.globals.getD (store.globalAddress owner n) 0 :: rest
    | _, rest => rest
  (code.foldl step []).headD 0

def makeGlobals (store : Store) (owner : Nat) : List Core.Global → Store
  | [] => store
  | g :: rest =>
    { store with globals := store.globals.push (store.constant owner g.init) }.makeGlobals owner rest

def writeData (store : Store) (owner : Nat) : List Core.Data → Store × Option Trap
  | [] => (store, none)
  | d :: rest =>
    let address := (store.constant owner d.offset).toNat
    let memory := (store.instances[owner]?).bind fun o => o.memories[d.memory]?
    if store.memoryHolds memory address d.bytes.length then
      (store.changeMemory memory fun m => m.write address d.bytes).writeData owner rest
    else (store, some .memoryOutOfBounds)

/-- Makes an instance of a module up to its start function, whose address is the answer. -/
def instantiate (store : Store) (module : Core.Module) (args : List (String × Nat)) :
    Store × Except Trap (Option Nat) :=
  let imported := store.importAddresses module args
  let owner := store.instances.size
  let made : CoreInstance := {
    funcs := (ofKind .func imported ++ newAddresses store.functions.size module.funcs.length).toArray
    tables := (ofKind .table imported ++ newAddresses store.tables.size module.tables.length).toArray
    memories :=
      (ofKind .memory imported ++ newAddresses store.memories.size module.memories.length).toArray
    globals := (ofKind .global imported ++ newAddresses store.globals.size module.globals.length).toArray }
  let address (kind : Core.Kind) (i : Nat) : Nat :=
    ((match kind with
      | .func => made.funcs
      | .table => made.tables
      | .memory => made.memories
      | .global => made.globals)[i]?).getD 0
  let store := { store with
    instances := store.instances.push made
    functions := store.functions ++ (module.funcs.map (Function.guest owner)).toArray
    tables := store.tables ++ (module.tables.map Core.Limits.min).toArray
    coreInstances := store.coreInstances.push
      (module.exports.map fun (name, kind, i) => (name, kind, address kind i)) }
  match store.makeMemories module.memories with
  | (store, some trap) => (store, .error trap)
  | (store, none) =>
    match (store.makeGlobals owner module.globals).writeData owner module.data with
    | (store, some trap) => (store, .error trap)
    | (store, none) => (store, .ok (module.start.map (address .func)))

def build (store : Store) (steps : List Component.Step) (waits : List Pending) (depth : Nat) : Progress :=
  match steps with
  | [] => .finish store []
  | .bundle exports :: rest =>
    let known := exports.map fun (name, kind, i) => (name, kind, (store.address? kind i).getD 0)
    .go { store with coreInstances := store.coreInstances.push known } ⟨.build rest, waits, depth⟩
  | .alias kind owner name :: rest =>
    match (store.coreInstances[owner]?).bind (List.lookup name) with
    | none => .trap store .stuck
    | some (_, address) => .go (store.know kind address) ⟨.build rest, waits, depth⟩
  | .lower callee type memory realloc :: rest =>
    let function := Function.lowered callee type (memory.bind (store.address? .memory))
      (realloc.bind (store.address? .func))
    let address := store.functions.size
    .go ({ store with functions := store.functions.push function }.know .func address)
      ⟨.build rest, waits, depth⟩
  | .instantiate module args :: rest =>
    match store.instantiate module args with
    | (store, .error trap) => .trap store trap
    | (store, .ok none) => .go store ⟨.build rest, waits, depth⟩
    | (store, .ok (some start)) => store.invoke start [] (.build rest :: waits) depth

def advance (store : Store) (thread : Thread) : Progress :=
  match thread with
  | ⟨.run frame, waits, depth⟩ => store.execute frame waits depth
  | ⟨.build steps, waits, depth⟩ => store.build steps waits depth
  | ⟨.words words, waits, depth⟩ =>
    match waits with
    | [] => .trap store .stuck
    | .frame frame :: waits =>
      .go store ⟨.run { frame with operands := words.reverse ++ frame.operands }, waits, depth⟩
    | .build steps :: waits => .go store ⟨.build steps, waits, depth⟩
    | .placing placement :: waits => store.place placement words waits depth
    | .enter lift :: _ => store.callBody lift words depth
    | .body lift :: _ => store.leave lift words
    | .cleanup values :: _ => .finish store.release values
    | .reply _ _ _ _ :: _ => .trap store .stuck
  | ⟨.values values, waits, depth⟩ =>
    match waits with
    | .reply type memory realloc area :: waits =>
      store.acceptReply type memory realloc area values waits depth
    | _ => .trap store .stuck

end Store

end ComponentHost
