/-!
Decoding UTF-8. A byte sequence that is not UTF-8 has a first fault: the place where the longest
valid text ends, and either the number of bytes that cannot start or continue a character there or,
when the bytes merely stop too early, no number at all.
-/
set_option autoImplicit false

namespace ComponentHost.Text.Utf8

/-- Why bytes are not UTF-8, with the offset of the first byte that is no part of a valid text. -/
inductive Fault where
  /-- These many bytes can never be a character. -/
  | invalid (length offset : Nat)
  /-- The bytes end inside a character. -/
  | incomplete (offset : Nat)
  deriving DecidableEq, Repr

def Fault.message : Fault → String
  | .invalid length offset => s!"invalid utf-8 sequence of {length} bytes from index {offset}"
  | .incomplete offset => s!"incomplete utf-8 byte sequence from index {offset}"

def isContinuation (b : UInt8) : Bool := 0x80 ≤ b && b ≤ 0xBF

/-- The second bytes that may follow a first byte of a longer character: narrower than all
continuation bytes where they would spell a shorter character, a surrogate or too large a number. -/
def isSecond (first second : UInt8) : Bool :=
  if first = 0xE0 then 0xA0 ≤ second && second ≤ 0xBF
  else if first = 0xED then 0x80 ≤ second && second ≤ 0x9F
  else if first = 0xF0 then 0x90 ≤ second && second ≤ 0xBF
  else if first = 0xF4 then 0x80 ≤ second && second ≤ 0x8F
  else isContinuation second

/-- The number of bytes of the character that starts with this byte, if one does. -/
def width? (first : UInt8) : Option Nat :=
  if first < 0x80 then some 1
  else if 0xC2 ≤ first && first ≤ 0xDF then some 2
  else if 0xE0 ≤ first && first ≤ 0xEF then some 3
  else if 0xF0 ≤ first && first ≤ 0xF4 then some 4
  else none

def payload (b : UInt8) : Nat := b.toNat % 64

/-- The first character of a nonempty sequence with the number of bytes after its first, or the
fault at its start. -/
def next (offset : Nat) (a : UInt8) (rest : List UInt8) : Except Fault (Char × Nat) :=
  match width? a, rest with
  | none, _ => .error (.invalid 1 offset)
  | some 1, _ => .ok (Char.ofNat a.toNat, 0)
  | some _, [] => .error (.incomplete offset)
  | some 2, b :: _ =>
    if isSecond a b then .ok (Char.ofNat (a.toNat % 32 * 64 + payload b), 1)
    else .error (.invalid 1 offset)
  | some 3, b :: rest =>
    if isSecond a b then
      match rest with
      | [] => .error (.incomplete offset)
      | c :: _ =>
        if isContinuation c then
          .ok (Char.ofNat ((a.toNat % 16 * 64 + payload b) * 64 + payload c), 2)
        else .error (.invalid 2 offset)
    else .error (.invalid 1 offset)
  | some _, b :: rest =>
    if isSecond a b then
      match rest with
      | [] => .error (.incomplete offset)
      | c :: rest =>
        if isContinuation c then
          match rest with
          | [] => .error (.incomplete offset)
          | d :: _ =>
            if isContinuation d then
              .ok (Char.ofNat (((a.toNat % 8 * 64 + payload b) * 64 + payload c) * 64 + payload d), 3)
            else .error (.invalid 3 offset)
        else .error (.invalid 2 offset)
    else .error (.invalid 1 offset)

/-- Decodes bytes that follow `offset` others, with the characters before them in reverse. -/
def decodeFrom (offset : Nat) (before : List Char) : List UInt8 → Except Fault (List Char)
  | [] => .ok before.reverse
  | a :: rest =>
    match next offset a rest with
    | .error fault => .error fault
    | .ok (c, more) => decodeFrom (offset + more + 1) (c :: before) (rest.drop more)
  termination_by bytes => bytes.length
  decreasing_by simp only [List.length_drop, List.length_cons]; omega

/-- The text that the bytes spell, or their first fault. -/
def decode (bytes : List UInt8) : Except Fault String :=
  (decodeFrom 0 [] bytes).map String.ofList

def encode (text : String) : List UInt8 := text.toUTF8.toList

end ComponentHost.Text.Utf8
