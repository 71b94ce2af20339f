import ComponentHost.Core.Instr

/-!
The types of a component's interface: how many words the values of a type become when they cross the
boundary between two components, and how they lie in a memory.
-/
set_option autoImplicit false

namespace ComponentHost.Component

inductive Scalar where
  | bool | s8 | u8 | s16 | u16 | s32 | u32 | char
  deriving DecidableEq, Repr

def Scalar.word : Scalar → String
  | .bool => "bool"
  | .s8 => "s8"
  | .u8 => "u8"
  | .s16 => "s16"
  | .u16 => "u16"
  | .s32 => "s32"
  | .u32 => "u32"
  | .char => "char"

inductive ValType where
  | scalar (type : Scalar)
  | string
  | list (item : ValType)
  | option (item : ValType)
  | tuple (items : List ValType)
  | record (fields : List (String × ValType))
  deriving Repr, Inhabited

def ValType.word : ValType → String
  | .scalar type => type.word
  | .string => "string"
  | .list _ => "list"
  | .option _ => "option"
  | .tuple _ => "tuple"
  | .record _ => "record"

structure Signature where
  params : List ValType
  results : List ValType
  deriving Repr, Inhabited

/-- The type of a thing that a component imports or exports. -/
inductive ExternType where
  | func (type : Signature)
  | interface (exports : List (String × ExternType))
  | module
  | component
  | type
  deriving Repr, Inhabited

/-! ## Words -/

mutual

def ValType.words : ValType → Nat
  | .scalar _ => 1
  | .string => 2
  | .list _ => 2
  | .option item => 1 + item.words
  | .tuple items => ValType.wordsOf items
  | .record fields => ValType.wordsOfFields fields

def ValType.wordsOf : List ValType → Nat
  | [] => 0
  | t :: ts => t.words + ValType.wordsOf ts

/-- The number of words that the fields of a record become. -/
def ValType.wordsOfFields : List (String × ValType) → Nat
  | [] => 0
  | (_, t) :: ts => t.words + ValType.wordsOfFields ts

end

mutual

/-- Whether values of a type have parts that lie in a memory. -/
def ValType.inMemory : ValType → Bool
  | .scalar _ => false
  | .string => true
  | .list _ => true
  | .option item => item.inMemory
  | .tuple items => ValType.anyInMemory items
  | .record fields => ValType.anyFieldInMemory fields

/-- Whether values of one of the types have parts that lie in a memory. -/
def ValType.anyInMemory : List ValType → Bool
  | [] => false
  | t :: ts => t.inMemory || ValType.anyInMemory ts

/-- Whether a field has parts that lie in a memory. -/
def ValType.anyFieldInMemory : List (String × ValType) → Bool
  | [] => false
  | (_, t) :: ts => t.inMemory || ValType.anyFieldInMemory ts

end

/-! ## Memory -/

/-- The bytes that a scalar has in a memory. -/
def Scalar.bytes : Scalar → Nat
  | .bool | .s8 | .u8 => 1
  | .s16 | .u16 => 2
  | .s32 | .u32 | .char => 4

/-- The first address from another one on that is a multiple of an alignment. -/
def alignUp (address align : Nat) : Nat := (address + align - 1) / align * align

mutual

/-- What the address of a value of a type is a multiple of. -/
def ValType.align : ValType → Nat
  | .scalar type => type.bytes
  | .string => 4
  | .list _ => 4
  | .option item => item.align
  | .tuple items => ValType.alignOf items
  | .record fields => ValType.alignOfFields fields

def ValType.alignOf : List ValType → Nat
  | [] => 1
  | t :: ts => max t.align (ValType.alignOf ts)

/-- What the address of the fields of a record is a multiple of. -/
def ValType.alignOfFields : List (String × ValType) → Nat
  | [] => 1
  | (_, t) :: ts => max t.align (ValType.alignOfFields ts)

end

mutual

/-- The bytes that a value of a type has in a memory, up to where the next one can lie. -/
def ValType.size : ValType → Nat
  | .scalar type => type.bytes
  | .string => 8
  | .list _ => 8
  | .option item => alignUp (alignUp 1 item.align + item.size) item.align
  | .tuple items => alignUp (ValType.endOf items 0) (ValType.alignOf items)
  | .record fields => alignUp (ValType.endOfFields fields 0) (ValType.alignOfFields fields)

/-- Where values end that lie one behind another from an address on. -/
def ValType.endOf : List ValType → Nat → Nat
  | [], start => start
  | t :: ts, start => ValType.endOf ts (alignUp start t.align + t.size)

/-- Where the fields of a record end that lie one behind another from an address on. -/
def ValType.endOfFields : List (String × ValType) → Nat → Nat
  | [], start => start
  | (_, t) :: ts, start => ValType.endOfFields ts (alignUp start t.align + t.size)

end

/-- The bytes of an area for one value of each type. -/
def ValType.areaSize (types : List ValType) : Nat := alignUp (ValType.endOf types 0) (ValType.alignOf types)

namespace Signature

/-- The most words that parameters are passed in; more go through memory. -/
def maxFlatParams : Nat := 16

/-- The most words that results are passed in; more go through memory. -/
def maxFlatResults : Nat := 1

def paramWords (s : Signature) : Nat := ValType.wordsOf s.params

def resultWords (s : Signature) : Nat := ValType.wordsOf s.results

def flatParams (s : Signature) : Bool := s.paramWords ≤ maxFlatParams

def flatResults (s : Signature) : Bool := s.resultWords ≤ maxFlatResults

/-- The number of words that parameters are passed in. -/
def passedWords (s : Signature) : Nat := if s.flatParams then s.paramWords else 1

/-- The type of a core function that implements a function of this type. -/
def lifted (s : Signature) : Core.FuncType where
  params := s.passedWords
  results := if s.flatResults then s.resultWords else 1

/-- The type of the core function through which a function of this type is called: results that do
not fit are written where one more parameter points. -/
def lowered (s : Signature) : Core.FuncType where
  params := s.passedWords + (if s.flatResults then 0 else 1)
  results := if s.flatResults then s.resultWords else 0

def needsMemory (s : Signature) : Bool :=
  ValType.anyInMemory s.params || ValType.anyInMemory s.results || !s.flatParams || !s.flatResults

/-- Whether implementing the function needs a way to allocate memory, for its parameters. -/
def liftNeedsRealloc (s : Signature) : Bool := ValType.anyInMemory s.params || !s.flatParams

/-- Whether calling the function needs a way to allocate memory, for its results. -/
def lowerNeedsRealloc (s : Signature) : Bool := ValType.anyInMemory s.results

end Signature

end ComponentHost.Component
