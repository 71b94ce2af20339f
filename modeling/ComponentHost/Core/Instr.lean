/-!
The instructions of core modules. Every value is a word of 32 bits, so a function type is a pair of
numbers. `Op` is an instruction in the order in which it is written, with references of any kind to
what it names; `Instr` is an instruction whose blocks hold their bodies.
-/
set_option autoImplicit false

namespace ComponentHost.Core

/-- The numbers of words that a function takes and returns. -/
structure FuncType where
  params : Nat
  results : Nat
  deriving DecidableEq, Repr, Inhabited

inductive Unary where
  | eqz | clz | ctz | popcnt | extendByte | extendHalf
  deriving DecidableEq, Repr

inductive Binary where
  | add | sub | mul | divS | divU | remS | remU | and | or | xor | shl | shrS | shrU | rotl | rotr
  | eq | ne | ltS | ltU | gtS | gtU | leS | leU | geS | geU
  deriving DecidableEq, Repr

/-- What a load reads: a word, or a byte or half word that is extended. -/
inductive Load where
  | word | byteS | byteU | halfS | halfU
  deriving DecidableEq, Repr

inductive Store where
  | word | byte | half
  deriving DecidableEq, Repr

def Load.bytes : Load → Nat
  | .word => 4
  | .byteS | .byteU => 1
  | .halfS | .halfU => 2

def Store.bytes : Store → Nat
  | .word => 4
  | .byte => 1
  | .half => 2

inductive Simple where
  | const (value : UInt32)
  | unary (op : Unary)
  | binary (op : Binary)
  | load (kind : Load) (offset : Nat)
  | store (kind : Store) (offset : Nat)
  | memorySize
  | memoryGrow
  | memoryCopy
  | memoryFill
  | drop
  | select
  | nop
  | unreachable
  | ret
  deriving DecidableEq, Repr

inductive Instr where
  | simple (op : Simple)
  | localGet (i : Nat)
  | localSet (i : Nat)
  | localTee (i : Nat)
  | globalGet (i : Nat)
  | globalSet (i : Nat)
  | call (f : Nat)
  | callIndirect (table : Nat) (type : FuncType)
  | block (type : FuncType) (body : List Instr)
  | loop (type : FuncType) (body : List Instr)
  | ifElse (type : FuncType) (yes no : List Instr)
  | br (depth : Nat)
  | brIf (depth : Nat)
  deriving Repr, Inhabited

structure Limits where
  min : Nat
  max : Option Nat
  deriving DecidableEq, Repr

/-- The kinds of things that a module imports and exports. -/
inductive Kind where
  | func | table | memory | global
  deriving DecidableEq, Repr

/-- The type of a thing that a module imports or exports. -/
inductive ExternType where
  | func (type : FuncType)
  | table (limits : Limits)
  | memory (limits : Limits)
  | global (isMut : Bool)
  deriving DecidableEq, Repr

def ExternType.kind : ExternType → Kind
  | .func _ => .func
  | .table _ => .table
  | .memory _ => .memory
  | .global _ => .global

/-- A name that a module imports under two levels of names. -/
structure Import where
  module : String
  name : String
  type : ExternType
  deriving Repr

/-- A function of a module: its locals beyond the parameters start at zero. -/
structure Func where
  type : FuncType
  locals : Nat
  body : List Instr
  deriving Repr, Inhabited

/-- A global with the instructions that compute its first value. -/
structure Global where
  isMut : Bool
  init : List Instr
  deriving Repr

/-- Bytes that are written into a memory, at the place that instructions compute. -/
structure Data where
  memory : Nat
  offset : List Instr
  bytes : List UInt8
  deriving Repr

/-- A module whose bodies are well typed. Its own things are numbered behind the imported ones. -/
structure Module where
  imports : List Import
  funcs : List Func
  tables : List Limits
  memories : List Limits
  globals : List Global
  exports : List (String × Kind × Nat)
  /-- The types of the exports. -/
  exportTypes : List (String × ExternType)
  /-- The function that runs when the module is instantiated. -/
  start : Option Nat
  data : List Data
  deriving Repr

end ComponentHost.Core
