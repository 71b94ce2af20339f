import ComponentHost.Component.Type
import ComponentHost.Core.Memory
import ComponentHost.Machine.Trap

/-!
Values at an interface, and how they are read from words and from a memory. A scalar value is kept as
the word that it is passed in: bits that its type does not have are cleared or copies of its sign.
-/
set_option autoImplicit false

namespace ComponentHost

open Component (ValType alignUp)

inductive Value where
  | scalar (type : Component.Scalar) (bits : UInt32)
  | string (text : String)
  | list (items : List Value)
  | option (item : Option Value)
  | tuple (items : List Value)
  | record (fields : List (String × Value))
  deriving Repr

namespace Value

def word : Value → String
  | .scalar type _ => type.word
  | .string _ => "string"
  | .list _ => "list"
  | .option _ => "option"
  | .tuple _ => "tuple"
  | .record _ => "record"

/-- The scalar of a type that a word is read as. -/
def ofWord (type : Component.Scalar) (bits : UInt32) : Except Trap Value :=
  match type with
  | .bool => .ok (.scalar type (Core.ofBool (bits != 0)))
  | .s8 => .ok (.scalar type (Core.signExtend 8 bits))
  | .u8 => .ok (.scalar type (bits &&& 0xFF))
  | .s16 => .ok (.scalar type (Core.signExtend 16 bits))
  | .u16 => .ok (.scalar type (bits &&& 0xFFFF))
  | .s32 | .u32 => .ok (.scalar type bits)
  | .char => if bits.toNat.isValidChar then .ok (.scalar type bits) else .error .charOutOfRange

/-! ## Values in a memory -/

/-- The string of so many bytes at an address. -/
def readString (memory : Core.Memory) (address bytes : Nat) : Except Trap Value :=
  if memory.holds address bytes then
    match Text.Utf8.decode (memory.read address bytes) with
    | .ok text => .ok (.string text)
    | .error fault => .error (.invalidText fault)
  else .error .stringOutOfBounds

/-- The list of so many items from an address on, each of which is read in the same way. -/
def readList (memory : Core.Memory) (item : ValType) (read : Nat → Except Trap Value)
    (address count : Nat) : Except Trap Value :=
  if !memory.holds address (count * item.size) then .error .listOutOfBounds
  else if address % item.align ≠ 0 then .error .listMisaligned
  else return .list (← (List.range count).mapM fun i => read (address + i * item.size))

mutual

/-- The value of a type at an address. -/
def load (memory : Core.Memory) : ValType → Nat → Except Trap Value
  | .scalar type, p => ofWord type (UInt32.ofNat (memory.readNumber p type.bytes))
  | .string, p => readString memory (memory.readNumber p 4) (memory.readNumber (p + 4) 4)
  | .list item, p =>
    readList memory item (fun p => load memory item p) (memory.readNumber p 4)
      (memory.readNumber (p + 4) 4)
  | .option item, p =>
    match memory.readNumber p 1 with
    | 0 => return .option none
    | 1 => return .option (some (← load memory item (p + alignUp 1 item.align)))
    | n => throw (.discriminant n 0)
  | .tuple items, p => return .tuple (← loadEach memory items p)
  | .record fields, p => return .record (← loadFields memory fields p)

/-- The values of types that lie one behind another from an address on. -/
def loadEach (memory : Core.Memory) : List ValType → Nat → Except Trap (List Value)
  | [], _ => return []
  | t :: ts, p => do
    let p := alignUp p t.align
    return (← load memory t p) :: (← loadEach memory ts (p + t.size))

/-- The fields of a record that lie one behind another from an address on. -/
def loadFields (memory : Core.Memory) :
    List (String × ValType) → Nat → Except Trap (List (String × Value))
  | [], _ => return []
  | (name, t) :: ts, p => do
    let p := alignUp p t.align
    return (name, ← load memory t p) :: (← loadFields memory ts (p + t.size))

end

/-! ## Values in words -/

mutual

/-- The value of a type that the first words stand for, and the words behind them; strings and lists
lie in the memory. -/
def lift (memory : Option Core.Memory) : ValType → List UInt32 → Except Trap (Value × List UInt32)
  | .scalar type, w :: words => return (← ofWord type w, words)
  | .string, address :: bytes :: words =>
    match memory with
    | none => throw .stuck
    | some m => return (← readString m address.toNat bytes.toNat, words)
  | .list item, address :: count :: words =>
    match memory with
    | none => throw .stuck
    | some m => return (← readList m item (load m item) address.toNat count.toNat, words)
  | .option item, w :: words =>
    match w.toNat with
    | 0 => return (.option none, words.drop item.words)
    | 1 => do
      let (value, words) ← lift memory item words
      return (.option (some value), words)
    | n => throw (.discriminant n 2)
  | .tuple items, words => do
    let (values, words) ← liftEach memory items words
    return (.tuple values, words)
  | .record fields, words => do
    let (values, words) ← liftFields memory fields words
    return (.record values, words)
  | _, _ => throw .stuck

/-- The values of types that the first words stand for, and the words behind them. -/
def liftEach (memory : Option Core.Memory) :
    List ValType → List UInt32 → Except Trap (List Value × List UInt32)
  | [], words => return ([], words)
  | t :: ts, words => do
    let (value, words) ← lift memory t words
    let (values, words) ← liftEach memory ts words
    return (value :: values, words)

/-- The fields of a record that the first words stand for, and the words behind them. -/
def liftFields (memory : Option Core.Memory) :
    List (String × ValType) → List UInt32 → Except Trap (List (String × Value) × List UInt32)
  | [], words => return ([], words)
  | (name, t) :: ts, words => do
    let (value, words) ← lift memory t words
    let (values, words) ← liftFields memory ts words
    return ((name, value) :: values, words)

end

/-! ## Parameters and results -/

/-- Where a word points, when the memory has an area there for values of types. -/
def area (memory : Core.Memory) (types : List ValType) (misaligned outOfBounds : Trap)
    (pointer : UInt32) : Except Trap Nat :=
  let p := pointer.toNat
  if p % ValType.alignOf types ≠ 0 then .error misaligned
  else if memory.holds p (ValType.areaSize types) then .ok p
  else .error outOfBounds

/-- The values of types that are passed in words, or in an area that the first word points to. -/
def ofWords (memory : Option Core.Memory) (types : List ValType) (isFlat : Bool)
    (misaligned outOfBounds : Trap) (words : List UInt32) : Except Trap (List Value) :=
  if isFlat then (liftEach memory types words).map Prod.fst
  else
    match memory, words with
    | some m, pointer :: _ => do loadEach m types (← area m types misaligned outOfBounds pointer)
    | _, _ => throw .stuck

/-- The arguments that a function is called with. -/
def ofArguments (memory : Option Core.Memory) (type : Component.Signature) :
    List UInt32 → Except Trap (List Value) :=
  ofWords memory type.params type.flatParams .areaMisaligned .areaOutOfBounds

/-- The results that a function returns. -/
def ofResults (memory : Option Core.Memory) (type : Component.Signature) :
    List UInt32 → Except Trap (List Value) :=
  ofWords memory type.results type.flatResults .resultPointerMisaligned .resultPointerOutOfBounds

end Value

end ComponentHost
