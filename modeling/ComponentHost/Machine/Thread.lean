import ComponentHost.Machine.Placement
import ComponentHost.Machine.Store

/-!
Threads. A thread is what is going on in one store: what runs now, and what waits for it, the innermost
first. `Progress` is what a step of a thread comes to, as far as the store itself can tell.
-/
set_option autoImplicit false

namespace ComponentHost

/-! ## Frames -/

structure Label where
  /-- The operands below those of the block. -/
  operands : List UInt32
  /-- The number of operands that a branch to the block takes along. -/
  arity : Nat
  /-- The code that a branch starts again, when the block is a loop. -/
  again : Option (List Core.Instr)
  /-- The code behind the block. -/
  code : List Core.Instr
  deriving Repr

/-- A call of a function of a core module. -/
structure Frame where
  /-- The core instance that the function belongs to. -/
  owner : Nat
  /-- The number of results. -/
  results : Nat
  locals : Array UInt32
  /-- The operands of the innermost block, the last first. -/
  operands : List UInt32
  /-- The code of the innermost block that is left. -/
  code : List Core.Instr
  /-- The blocks that the code is in, the innermost first. -/
  labels : List Label
  deriving Repr

namespace Frame

def start (owner : Nat) (func : Core.Func) (args : List UInt32) : Frame where
  owner
  results := func.type.results
  locals := (args ++ List.replicate func.locals 0).toArray
  operands := []
  code := func.body
  labels := []

/-- The results of a function, when the operands hold them. -/
def returned (frame : Frame) : List UInt32 := (frame.operands.take frame.results).reverse

/-- The frame inside a block of its next instruction, with the block's parameters as operands. -/
def openBlock (frame : Frame) (params arity : Nat) (again : Option (List Core.Instr))
    (body code : List Core.Instr) : Frame :=
  { frame with
    operands := frame.operands.take params
    code := body
    labels := ⟨frame.operands.drop params, arity, again, code⟩ :: frame.labels }

/-- The frame behind a branch out of so many blocks; none when that leaves the function. -/
def branch? (frame : Frame) (depth : Nat) : Option Frame :=
  match frame.labels.drop depth with
  | [] => none
  | label :: labels =>
    let taken := frame.operands.take label.arity
    match label.again with
    | some body => some { frame with operands := taken, code := body, labels := label :: labels }
    | none => some { frame with operands := taken ++ label.operands, code := label.code, labels }

end Frame

/-! ## Threads -/

inductive Pending where
  /-- Code waits for the results of a function. -/
  | frame (frame : Frame)
  /-- The making of an instance waits for a start function. -/
  | build (steps : List Component.Step)
  /-- Values are being placed; they wait for room, or for nothing. -/
  | placing (placement : Placement)
  /-- A function of the component waits for the words of its arguments. -/
  | enter (lift : Component.Lift)
  /-- A function of the component waits for the core function that implements it. -/
  | body (lift : Component.Lift)
  /-- Results wait for the function that clears up behind them. -/
  | cleanup (values : List Value)
  /-- A core function waits for the function of another component that it calls. -/
  | reply (type : Component.Signature) (memory realloc : Option Nat) (area : Option UInt32)
  deriving Repr

inductive Activity where
  /-- Code runs. -/
  | run (frame : Frame)
  /-- An instance is made. -/
  | build (steps : List Component.Step)
  /-- Words go to what waits. -/
  | words (words : List UInt32)
  /-- The values of another component's function go to what waits. -/
  | values (values : List Value)
  deriving Repr

structure Thread where
  activity : Activity
  /-- What waits for it, the innermost first. -/
  waits : List Pending
  /-- The number of frames among what runs and waits. -/
  depth : Nat
  deriving Repr

inductive Progress where
  | go (store : Store) (thread : Thread)
  /-- A function of another component is called. -/
  | call (store : Store) (thread : Thread) (interface function : String) (args : List Value)
      (results : Nat)
  /-- The thread is at its end. -/
  | finish (store : Store) (values : List Value)
  | trap (store : Store) (trap : Trap)

end ComponentHost
