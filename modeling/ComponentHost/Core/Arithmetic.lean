import ComponentHost.Core.Instr

/-!
Arithmetic on words. A word is a number modulo `2 ^ 32`; a signed instruction reads the upper half of
them as negative.
-/
set_option autoImplicit false

namespace ComponentHost.Core

inductive ArithmeticFault where
  | divideByZero
  | overflow
  deriving DecidableEq, Repr

def ofBool (b : Bool) : UInt32 := if b then 1 else 0

def signed (a : UInt32) : Int := a.toInt32.toInt

/-- The word that a signed number is read from. -/
def ofSigned (n : Int) : UInt32 := UInt32.ofNat (n % UInt32.size).toNat

/-- The low bits of a word, with the highest of them repeated above. -/
def signExtend (bits : Nat) (a : UInt32) : UInt32 :=
  let low := a.toNat % (1 <<< bits)
  if low < 1 <<< (bits - 1) then UInt32.ofNat low else UInt32.ofNat (UInt32.size - (1 <<< bits) + low)

/-- The number of zero bits above the highest bit that is one, among so many bits. -/
def leadingZeros (n : Nat) : Nat → Nat
  | 0 => 0
  | bits + 1 => if n.testBit bits then 0 else leadingZeros n bits + 1

/-- The number of zero bits from a place up to the next bit that is one. -/
def trailingZeros (n place : Nat) : Nat → Nat
  | 0 => 0
  | bits + 1 => if n.testBit place then 0 else trailingZeros n (place + 1) bits + 1

/-- The number of bits that are one, among so many. -/
def ones (n : Nat) : Nat → Nat
  | 0 => 0
  | bits + 1 => ones n bits + (if n.testBit bits then 1 else 0)

def Unary.apply (op : Unary) (a : UInt32) : UInt32 :=
  match op with
  | .eqz => ofBool (a == 0)
  | .clz => UInt32.ofNat (leadingZeros a.toNat 32)
  | .ctz => UInt32.ofNat (trailingZeros a.toNat 0 32)
  | .popcnt => UInt32.ofNat (ones a.toNat 32)
  | .extendByte => signExtend 8 a
  | .extendHalf => signExtend 16 a

def Binary.apply (op : Binary) (a b : UInt32) : Except ArithmeticFault UInt32 :=
  match op with
  | .add => .ok (a + b)
  | .sub => .ok (a - b)
  | .mul => .ok (a * b)
  | .divS =>
    if b = 0 then .error .divideByZero
    else if a = 0x80000000 ∧ b = 0xFFFFFFFF then .error .overflow
    else .ok (ofSigned ((signed a).tdiv (signed b)))
  | .divU => if b = 0 then .error .divideByZero else .ok (a / b)
  | .remS => if b = 0 then .error .divideByZero else .ok (ofSigned ((signed a).tmod (signed b)))
  | .remU => if b = 0 then .error .divideByZero else .ok (a % b)
  | .and => .ok (a &&& b)
  | .or => .ok (a ||| b)
  | .xor => .ok (a ^^^ b)
  | .shl => .ok (a <<< b)
  | .shrU => .ok (a >>> b)
  | .shrS => .ok (ofSigned (signed a >>> (b.toNat % 32)))
  | .rotl => .ok ((a <<< b) ||| (a >>> ((32 - b % 32) % 32)))
  | .rotr => .ok ((a >>> b) ||| (a <<< ((32 - b % 32) % 32)))
  | .eq => .ok (ofBool (a == b))
  | .ne => .ok (ofBool (a != b))
  | .ltS => .ok (ofBool (signed a < signed b))
  | .ltU => .ok (ofBool (a < b))
  | .gtS => .ok (ofBool (signed a > signed b))
  | .gtU => .ok (ofBool (a > b))
  | .leS => .ok (ofBool (signed a ≤ signed b))
  | .leU => .ok (ofBool (a ≤ b))
  | .geS => .ok (ofBool (signed a ≥ signed b))
  | .geU => .ok (ofBool (a ≥ b))

end ComponentHost.Core
