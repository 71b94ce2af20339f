import ComponentHost.Machine.Value

/-!
Placing values at an interface, as words or in a memory. A value that lies in a memory needs room there,
for which the component is asked and which may take it any time; so what is still to be done is kept as
tasks, of which one is done after the other.
-/
set_option autoImplicit false

namespace ComponentHost

open Component (ValType alignUp)

/-- Where values go: behind the words so far, or to an address. -/
inductive Target where
  | words
  | memory (address : Nat)
  deriving Repr

namespace Target

/-- Where the next value of a type can go. -/
def aligned (target : Target) (type : ValType) : Target :=
  match target with
  | .words => .words
  | .memory address => .memory (alignUp address type.align)

/-- What is behind so many bytes. -/
def behind (target : Target) (bytes : Nat) : Target :=
  match target with
  | .words => .words
  | .memory address => .memory (address + bytes)

end Target

/-- A value that is to be placed as one of a type. -/
structure Part where
  /-- The name of the field that is wanted and of the one that is given, in a record. -/
  names : Option (String × String)
  type : ValType
  value : Value
  deriving Repr

/-- Values as parts of types, one by one. -/
def Part.ofValues (types : List ValType) (values : List Value) : List Part :=
  (types.zip values).map fun (type, value) => ⟨none, type, value⟩

/-- What room is needed for. -/
inductive Contents where
  | text (bytes : List UInt8)
  | items (type : ValType) (values : List Value)
  /-- Arguments that are too many for words. -/
  | arguments (parts : List Part)
  deriving Repr

namespace Contents

def parts : Contents → List Part
  | .text _ => []
  | .items type values => values.map fun value => ⟨none, type, value⟩
  | .arguments parts => parts

def bytes : Contents → List UInt8
  | .text bytes => bytes
  | .items _ _ | .arguments _ => []

def align : Contents → Nat
  | .text _ => 1
  | .items type _ => type.align
  | .arguments parts => ValType.alignOf (parts.map Part.type)

def size : Contents → Nat
  | .text bytes => bytes.length
  | .items type values => values.length * type.size
  | .arguments parts => ValType.areaSize (parts.map Part.type)

/-- The number that is told with the address. -/
def count? : Contents → Option Nat
  | .text bytes => some bytes.length
  | .items _ values => some values.length
  | .arguments _ => none

end Contents

inductive Task where
  | part (part : Part) (target : Target)
  /-- Puts a number, in so many bytes when it goes to a memory. -/
  | number (value : UInt32) (bytes : Nat) (target : Target)
  /-- Asks for room, and tells where it is. -/
  | ask (contents : Contents) (target : Target)
  /-- Fills the room that has been asked for. -/
  | fill (contents : Contents) (target : Target)
  deriving Repr

namespace Task

/-- Puts parts one behind another. -/
def each : Target → List Part → List Task
  | _, [] => []
  | target, p :: ps =>
    let target := target.aligned p.type
    .part p target :: each (target.behind p.type.size) ps

/-- Puts contents at an address, and tells the address and how many there are. -/
def contents (c : Contents) (address : UInt32) (target : Target) : List Task :=
  each (.memory address.toNat) c.parts ++ .number address 4 target ::
    match c.count? with
    | none => []
    | some n => [.number (UInt32.ofNat n) 4 (target.behind 4)]

/-- The words of a value that is not there. -/
def blank (type : ValType) : Target → List Task
  | .words => List.replicate type.words (.number 0 4 .words)
  | .memory _ => []

end Task

/-- The most bytes that a string may have that goes to a memory. -/
def maxTextBytes : Nat := 0x7FFFFFFF

/-- How a value is put as one of a type. -/
def Value.tasks (type : ValType) (value : Value) (target : Target) : Except Trap (List Task) :=
  match type, value with
  | .scalar wanted, .scalar given bits =>
    if wanted = given then .ok [.number bits wanted.bytes target]
    else .error (.typeMismatch wanted.word given.word)
  | .string, .string text =>
    let bytes := Text.Utf8.encode text
    if bytes.length ≤ maxTextBytes then .ok [.ask (.text bytes) target]
    else .error (.textTooLong bytes.length)
  | .list item, .list values => .ok [.ask (.items item values) target]
  | .option item, .option none => .ok (.number 0 1 target :: Task.blank item target)
  | .option item, .option (some value) =>
    .ok (.number 1 1 target :: Task.each (target.behind 1) [⟨none, item, value⟩])
  | .tuple types, .tuple values =>
    if types.length = values.length then .ok (Task.each target (Part.ofValues types values))
    else .error (.itemCount types.length values.length)
  | .record wanted, .record given =>
    if wanted.length = given.length then
      .ok (Task.each target ((wanted.zip given).map fun ((name, type), other, value) =>
        ⟨some (name, other), type, value⟩))
    else .error (.fieldCount wanted.length given.length)
  | wanted, given => .error (.typeMismatch wanted.word given.word)

/-- How a part is put; one of a record has to be the field that is wanted. -/
def Part.tasks (part : Part) (target : Target) : Except Trap (List Task) :=
  match part.names with
  | none => part.value.tasks part.type target
  | some (wanted, given) =>
    if wanted = given then part.value.tasks part.type target
    else .error (.fieldName wanted given)

/-- Values that are being placed. -/
structure Placement where
  /-- The address of the memory that values go to. -/
  memory : Option Nat
  /-- The address of the core function that makes room. -/
  realloc : Option Nat
  tasks : List Task
  /-- The words so far, the last first. -/
  words : List UInt32
  deriving Repr

/-- The arguments of a function, as words or in an area whose address is the only word. -/
def Placement.ofArguments (memory realloc : Option Nat) (type : Component.Signature)
    (args : List Value) : Placement where
  memory
  realloc
  tasks :=
    let parts := Part.ofValues type.params args
    if type.flatParams then Task.each .words parts else [.ask (.arguments parts) .words]
  words := []

/-- Results that go to a place. -/
def Placement.ofResults (memory realloc : Option Nat) (type : Component.Signature)
    (values : List Value) (target : Target) : Placement where
  memory
  realloc
  tasks := Task.each target (Part.ofValues type.results values)
  words := []

end ComponentHost
