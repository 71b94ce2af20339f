import ComponentHost.Wat.Token

/-!
Reading tokens one after another. A reader fails at the token that it cannot use, or, when the tokens
have run out, at the end of the text; a broken token is found when it is looked at.
-/
set_option autoImplicit false

namespace ComponentHost.Wat

/-- The tokens that are left, and the offset of the end of the text. -/
structure Input where
  tokens : List Token
  stop : Nat

abbrev Reader : Type → Type := StateT Input (Except Fault)

namespace Reader

def place : Reader Nat := do
  let input ← get
  return (input.tokens.head?.map Token.offset).getD input.stop

def fail {α : Type} (message : String) : Reader α := do
  throw ⟨message, ← place⟩

/-- The lexeme that lies so many tokens ahead; all up to it must be whole. -/
def ahead (n : Nat) : Reader (Option Lexeme) := do
  let input ← get
  for token in input.tokens.take (n + 1) do
    if let .broken fault := token.lexeme then throw fault
  return input.tokens[n]?.map Token.lexeme

def advance : Reader Unit := modify fun input => { input with tokens := input.tokens.tail }

/-- Whether the list that is being read has no more tokens. -/
def atEnd : Reader Bool := do
  return match (← get).tokens with
    | [] => true
    | token :: _ => token.lexeme = .closeParen

/-- Whether the token so far ahead is a keyword. -/
def isKeyword (word : String) (n : Nat) : Reader Bool := do
  return (← ahead n) = some (.keyword word)

def keyword (word : String) : Reader Unit := do
  if ← isKeyword word 0 then advance else fail s!"expected keyword \x60{word}\x60"

def parens {α : Type} (inner : Reader α) : Reader α := do
  if (← ahead 0) = some .openParen then advance else fail "expected \x60(\x60"
  let a ← inner
  if (← ahead 0) = some .closeParen then advance else fail "expected \x60)\x60"
  return a

/-- Reads something as long as the list has more tokens. -/
def many {α : Type} (inner : Reader α) : Nat → Reader (List α)
  | 0 => return []
  | fuel + 1 => do
    if ← atEnd then return []
    let a ← inner
    return a :: (← many inner fuel)

/-- A bound on the number of things that can be read. -/
def bound : Reader Nat := return (← get).tokens.length + 1

/-- Reads something as long as the list has more tokens. -/
def rest {α : Type} (inner : Reader α) : Reader (List α) := do
  many inner (← bound)

def whileM {α : Type} (test : Reader Bool) (inner : Reader α) : Nat → Reader (List α)
  | 0 => return []
  | fuel + 1 => do
    if ← test then
      let a ← inner
      return a :: (← whileM test inner fuel)
    else return []

/-- Reads something as long as a list that starts with a keyword follows. -/
def lists {α : Type} (word : String) (inner : Reader α) : Reader (List α) := do
  whileM (isKeyword word 1) inner (← bound)

def bytes : Reader (List UInt8) := do
  match ← ahead 0 with
  | some (.string bytes) => advance; return bytes
  | _ => fail "expected a string"

def text : Reader String := do
  let offset ← place
  let bytes ← bytes
  match Text.Utf8.decode bytes with
  | .ok text => return text
  | .error _ => throw ⟨"malformed UTF-8 encoding", offset⟩

/-- The unsigned 32-bit number that comes next, if one does. -/
def number? : Reader (Option Nat) := do
  match ← ahead 0 with
  | some (.integer isNegative value) =>
    if !isNegative && value < UInt32.size then advance; return some value
    else fail "invalid u32 number: constant out of range"
  | _ => return none

def number : Reader Nat := do
  match ← number? with
  | some n => return n
  | none => fail "expected a u32"

/-- Reads a 32-bit word, written with or without a sign. -/
def word : Reader UInt32 := do
  match ← ahead 0 with
  | some (.integer isNegative value) =>
    if isNegative then
      if value ≤ 2147483648 then advance; return 0 - UInt32.ofNat value
      else fail "invalid i32 number: constant out of range"
    else if value < UInt32.size then advance; return UInt32.ofNat value
    else fail "invalid i32 number: constant out of range"
  | _ => fail "expected a i32"

end Reader

end ComponentHost.Wat
