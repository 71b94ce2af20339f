import ComponentHost.Machine.Crossing

/-!
Running code: one instruction at a time.
-/
set_option autoImplicit false

namespace ComponentHost

namespace Store

/-! ## Instructions that name nothing -/

def load (store : Store) (memory : Option Nat) (kind : Core.Load) (address : Nat) : Except Trap UInt32 :=
  match store.memory? memory with
  | none => .error .stuck
  | some m =>
    if m.holds address kind.bytes then
      let w := UInt32.ofNat (m.readNumber address kind.bytes)
      .ok (match kind with
        | .byteS => Core.signExtend 8 w
        | .halfS => Core.signExtend 16 w
        | .word | .byteU | .halfU => w)
    else .error .memoryOutOfBounds

/-- Grows a memory by so many pages; the answer is the old number of pages. -/
def growMemory (store : Store) (memory : Option Nat) (more : Nat) : Store × Option Nat :=
  match store.memory? memory with
  | none => (store, none)
  | some m =>
    match m.grow? store.maxMemoryBytes more with
    | none => (store, none)
    | some grown => (store.changeMemory memory fun _ => grown, some m.pageCount)

/-- What an instruction does to the operands and the store. -/
def apply (store : Store) (memory : Option Nat) (op : Core.Simple) (operands : List UInt32) :
    Store × Except Trap (List UInt32) :=
  match op, operands with
  | .const w, rest => (store, .ok (w :: rest))
  | .unary op, a :: rest => (store, .ok (op.apply a :: rest))
  | .binary op, b :: a :: rest =>
    (store, match op.apply a b with
      | .ok w => .ok (w :: rest)
      | .error fault => .error (.arithmetic fault))
  | .load kind offset, a :: rest =>
    let loaded := store.load memory kind (a.toNat + offset)
    (store, loaded.map (· :: rest))
  | .store kind offset, w :: a :: rest =>
    let address := a.toNat + offset
    if store.memoryHolds memory address kind.bytes then
      (store.changeMemory memory fun m => m.writeNumber address w.toNat kind.bytes, .ok rest)
    else (store, .error .memoryOutOfBounds)
  | .memorySize, rest =>
    let pages := ((store.memory? memory).map Core.Memory.pageCount).getD 0
    (store, .ok (UInt32.ofNat pages :: rest))
  | .memoryGrow, more :: rest =>
    match store.growMemory memory more.toNat with
    | (store, some old) => (store, .ok (UInt32.ofNat old :: rest))
    | (store, none) => (store, .ok (0xFFFFFFFF :: rest))
  | .memoryCopy, n :: source :: target :: rest =>
    if store.memoryHolds memory source.toNat n.toNat && store.memoryHolds memory target.toNat n.toNat then
      (store.changeMemory memory fun m => m.copy target.toNat source.toNat n.toNat, .ok rest)
    else (store, .error .memoryOutOfBounds)
  | .memoryFill, n :: w :: target :: rest =>
    if store.memoryHolds memory target.toNat n.toNat then
      (store.changeMemory memory fun m => m.fill target.toNat (UInt8.ofNat w.toNat) n.toNat, .ok rest)
    else (store, .error .memoryOutOfBounds)
  | .drop, _ :: rest => (store, .ok rest)
  | .select, c :: b :: a :: rest => (store, .ok ((if c = 0 then b else a) :: rest))
  | .nop, rest => (store, .ok rest)
  | .unreachable, _ => (store, .error .unreachable)
  | _, _ => (store, .error .stuck)

/-! ## All instructions -/

def globalAddress (store : Store) (owner i : Nat) : Nat :=
  ((store.instances[owner]?).bind fun o => o.globals[i]?).getD store.globals.size

/-- The number of parameters of the core function at an address. -/
def paramCount (store : Store) (address : Nat) : Nat :=
  match store.functions[address]? with
  | some (.guest _ func) => func.type.params
  | some (.lowered _ type _ _) => type.lowered.params
  | none => 0

/-- Whether a table of an instance has an item with a number. -/
def tableHolds (store : Store) (owner table i : Nat) : Bool :=
  match (store.instances[owner]?).bind fun o => o.tables[table]? with
  | some address => i < (store.tables[address]?).getD 0
  | none => false

def execute (store : Store) (frame : Frame) (waits : List Pending) (depth : Nat) : Progress :=
  let back (ws : List UInt32) : Progress := .go store ⟨.words ws, waits, depth - 1⟩
  match frame.code with
  | [] =>
    match frame.labels with
    | [] => back frame.returned
    | label :: labels =>
      .go store ⟨.run { frame with
        operands := frame.operands ++ label.operands, code := label.code, labels }, waits, depth⟩
  | i :: code =>
    match i, frame.operands with
    | .simple .ret, _ => back frame.returned
    | .simple op, operands =>
      match store.apply (store.firstMemory? frame.owner) op operands with
      | (store, .ok operands) => .go store ⟨.run { frame with operands, code }, waits, depth⟩
      | (store, .error trap) => .trap store trap
    | .localGet n, operands =>
      .go store ⟨.run { frame with operands := frame.locals.getD n 0 :: operands, code }, waits, depth⟩
    | .localSet n, w :: operands =>
      .go store ⟨.run { frame with
        operands, code, locals := frame.locals.setIfInBounds n w }, waits, depth⟩
    | .localTee n, w :: operands =>
      .go store ⟨.run { frame with
        operands := w :: operands, code, locals := frame.locals.setIfInBounds n w }, waits, depth⟩
    | .globalGet n, operands =>
      let w := store.globals.getD (store.globalAddress frame.owner n) 0
      .go store ⟨.run { frame with operands := w :: operands, code }, waits, depth⟩
    | .globalSet n, w :: operands =>
      let a := store.globalAddress frame.owner n
      .go { store with globals := store.globals.setIfInBounds a w }
        ⟨.run { frame with operands, code }, waits, depth⟩
    | .call f, operands =>
      match (store.instances[frame.owner]?).bind fun o => o.funcs[f]? with
      | none => .trap store .stuck
      | some address =>
        let n := store.paramCount address
        store.invoke address (operands.take n).reverse
          (.frame { frame with operands := operands.drop n, code } :: waits) depth
    | .callIndirect table _, item :: _ =>
      if store.tableHolds frame.owner table item.toNat then .trap store .uninitializedElement
      else .trap store .undefinedElement
    | .block type body, _ =>
      .go store ⟨.run (frame.openBlock type.params type.results none body code), waits, depth⟩
    | .loop type body, _ =>
      .go store ⟨.run (frame.openBlock type.params type.params (some body) body code), waits, depth⟩
    | .ifElse type yes no, c :: operands =>
      let frame := { frame with operands }
      let body := if c = 0 then no else yes
      .go store ⟨.run (frame.openBlock type.params type.results none body code), waits, depth⟩
    | .br n, _ =>
      match frame.branch? n with
      | none => back frame.returned
      | some frame => .go store ⟨.run frame, waits, depth⟩
    | .brIf n, c :: operands =>
      let frame := { frame with operands, code }
      if c = 0 then .go store ⟨.run frame, waits, depth⟩
      else
        match frame.branch? n with
        | none => back frame.returned
        | some frame => .go store ⟨.run frame, waits, depth⟩
    | _, _ => .trap store .stuck

end Store

end ComponentHost
