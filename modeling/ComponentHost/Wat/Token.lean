import ComponentHost.Text.Blank
import ComponentHost.Text.Utf8
import ComponentHost.Text.Column
import ComponentHost.Manifest.Token

/-!
The tokens of the text format. Blanks and comments separate tokens and are dropped; a token knows
where it starts, in bytes. A text that cannot be divided into tokens ends in a broken token that holds
the fault, so that faults before it are found first.
-/
set_option autoImplicit false

namespace ComponentHost.Wat

structure Fault where
  message : String
  offset : Nat
  deriving DecidableEq, Repr

inductive Lexeme where
  | openParen
  | closeParen
  | string (bytes : List UInt8)
  /-- A dollar sign and a name, which may be empty. -/
  | id (name : String)
  | keyword (text : String)
  | integer (isNegative : Bool) (value : Nat)
  /-- Characters that are none of the others. -/
  | reserved
  | broken (fault : Fault)
  deriving DecidableEq, Repr

/-- A token and the offset of its first byte. -/
structure Token where
  lexeme : Lexeme
  offset : Nat
  deriving DecidableEq, Repr

/-! ## Characters in messages -/

def hex (n : Nat) : String := String.ofList (Nat.toDigits 16 n)

/-- Whether a character has a shape of its own. -/
def isVisible (c : Char) : Bool :=
  !(c.toNat < 0x20 || (0x7F ≤ c.toNat && c.toNat ≤ 0xA0) || c.toNat = 0xAD
    || (c ≠ ' ' && Text.isBlank c) || Text.inRanges Text.invisibleRanges c
    || (0xE000 ≤ c.toNat && c.toNat ≤ 0xF8FF) || (0xFFF0 ≤ c.toNat && c.toNat ≤ 0xFFFB))

/-- A character in quotes; one without a shape is written by its number. -/
def quoted (c : Char) : String :=
  let inner := match c with
    | '\x00' => "\\0"
    | '\t' => "\\t"
    | '\n' => "\\n"
    | '\r' => "\\r"
    | '\'' => "\\'"
    | '\\' => "\\\\"
    | c => if isVisible c then String.singleton c else "\\u\x7b" ++ hex c.toNat ++ "\x7d"
  "'" ++ inner ++ "'"

/-! ## Strings -/

def bytesOf (c : Char) : List UInt8 := Text.Utf8.encode (String.singleton c)

/-- The hexadecimal number up to a closing brace, and the text behind the brace; an underscore may
stand between two digits. -/
def braced (offset : Nat) : Bool → Nat → List Char → Except Fault (Nat × Nat × List Char)
  | _, _, [] => .error ⟨"unexpected end-of-file", offset⟩
  | afterDigit, n, c :: rest =>
    match Manifest.hexDigit? c with
    | some d =>
      if n * 16 + d < UInt32.size then braced (offset + 1) true (n * 16 + d) rest
      else .error ⟨"number is too big to parse", offset⟩
    | none =>
      if c = '_' && afterDigit then braced (offset + 1) false n rest
      else if c = '\x7d' && afterDigit then .ok (n, offset + 1, rest)
      else .error ⟨"invalid hex digit " ++ quoted c, offset⟩

def escape (offset : Nat) : List Char → Except Fault (List UInt8 × Nat × List Char)
  | [] => .error ⟨"unexpected end-of-file", offset⟩
  | '"' :: rest => .ok ([34], offset + 1, rest)
  | '\'' :: rest => .ok ([39], offset + 1, rest)
  | '\\' :: rest => .ok ([92], offset + 1, rest)
  | 't' :: rest => .ok ([9], offset + 1, rest)
  | 'n' :: rest => .ok ([10], offset + 1, rest)
  | 'r' :: rest => .ok ([13], offset + 1, rest)
  | 'u' :: [] => .error ⟨"unexpected end-of-file", offset + 1⟩
  | 'u' :: c :: rest =>
    if c = '\x7b' then
      match braced (offset + 2) false 0 rest with
      | .error fault => .error fault
      | .ok (n, offset, rest) =>
        if n < 0xD800 ∨ (0xDFFF < n ∧ n < 0x110000) then .ok (bytesOf (Char.ofNat n), offset, rest)
        else .error ⟨"invalid unicode scalar value 0x" ++ hex n, offset - 1⟩
    else .error ⟨"expected '\x7b' but found " ++ quoted c, offset + 1⟩
  | c :: rest =>
    match Manifest.hexDigit? c with
    | none => .error ⟨"invalid string escape " ++ quoted c, offset⟩
    | some high =>
      match rest with
      | [] => .error ⟨"unexpected end-of-file", offset + 1⟩
      | d :: rest =>
        match Manifest.hexDigit? d with
        | some low => .ok ([UInt8.ofNat (high * 16 + low)], offset + 2, rest)
        | none => .error ⟨"invalid hex digit " ++ quoted d, offset + 1⟩

/-- Reads a string behind its opening quote, with the bytes before in reverse. -/
def string : Nat → Nat → List UInt8 → List Char → Except Fault (List UInt8 × Nat × List Char)
  | 0, offset, _, _ => .error ⟨"unexpected end-of-file", offset⟩
  | _, offset, _, [] => .error ⟨"unexpected end-of-file", offset⟩
  | fuel + 1, offset, before, c :: rest =>
    if c = '"' then .ok (before.reverse, offset + 1, rest)
    else if c = '\\' then
      match escape (offset + 1) rest with
      | .error fault => .error fault
      | .ok (bytes, offset, rest) => string fuel offset (bytes.reverse ++ before) rest
    else if c.toNat < 0x20 || c.toNat = 0x7F then
      .error ⟨"invalid character in string " ++ quoted c, offset⟩
    else string fuel (offset + c.utf8Size) ((bytesOf c).reverse ++ before) rest

/-! ## Words -/

def isWordChar (c : Char) : Bool :=
  c.isAlphanum || "!#$%&'*+-./:<=>?@\\^_\x60|~".toList.contains c

/-- The number that digits of a base spell; an underscore may stand between two of them. -/
def digits? (base : Nat) : Bool → Nat → List Char → Option Nat
  | afterDigit, n, [] => if afterDigit then some n else none
  | afterDigit, n, c :: rest =>
    if c = '_' then if afterDigit then digits? base false n rest else none
    else
      match Manifest.hexDigit? c with
      | some d => if d < base then digits? base true (n * base + d) rest else none
      | none => none

def integer? (word : List Char) : Option Lexeme :=
  let (isNegative, ds) := match word with
    | '-' :: ds => (true, ds)
    | '+' :: ds => (false, ds)
    | ds => (false, ds)
  let value := match ds with
    | '0' :: 'x' :: ds => digits? 16 false 0 ds
    | ds => digits? 10 false 0 ds
  value.map (.integer isNegative)

def ofWord (word : List Char) : Lexeme :=
  match integer? word with
  | some lexeme => lexeme
  | none =>
    match word with
    | '$' :: name => .id (String.ofList name)
    | c :: _ => if c.isLower then .keyword (String.ofList word) else .reserved
    | [] => .reserved

/-- Reads words and strings that nothing separates: the text of the words, the strings, and how many
there are of both. -/
def run : Nat → Nat → List Char → List (List UInt8) → List Char →
    Except Fault (List Char × List (List UInt8) × Nat × List Char)
  | 0, offset, word, strings, cs => .ok (word, strings, offset, cs)
  | _, offset, word, strings, [] => .ok (word, strings, offset, [])
  | fuel + 1, offset, word, strings, c :: rest =>
    if isWordChar c then run fuel (offset + 1) (word ++ [c]) strings rest
    else if c = '"' then
      match string (rest.length + 1) (offset + 1) [] rest with
      | .error fault => .error fault
      | .ok (bytes, offset, rest) => run fuel offset word (strings ++ [bytes]) rest
    else .ok (word, strings, offset, c :: rest)

/-! ## Comments -/

/-- The text behind a block comment of which so many openings are not closed; none when the text
ends first. -/
def blockComment? : Nat → Nat → List Char → Option (Nat × List Char)
  | _, _, [] => none
  | depth, offset, '(' :: ';' :: rest => blockComment? (depth + 1) (offset + 2) rest
  | depth, offset, ';' :: ')' :: rest =>
    if depth = 1 then some (offset + 2, rest) else blockComment? (depth - 1) (offset + 2) rest
  | depth, offset, c :: rest => blockComment? depth (offset + c.utf8Size) rest

/-- The text behind a line comment, up to the end of its line. -/
def lineComment : Nat → List Char → Nat × List Char
  | offset, [] => (offset, [])
  | offset, c :: rest =>
    if c = '\n' || c = '\r' then (offset, c :: rest) else lineComment (offset + c.utf8Size) rest

/-! ## The whole text -/

/-- The tokens of a text that starts at an offset. -/
def tokensFrom : Nat → Nat → List Char → List Token
  | 0, _, _ => []
  | _, _, [] => []
  | fuel + 1, offset, c :: rest =>
    if c = ' ' || c = '\n' || c = '\r' || c = '\t' then tokensFrom fuel (offset + 1) rest
    else if c = '(' then
      match rest with
      | ';' :: inner =>
        match blockComment? 1 (offset + 2) inner with
        | some (offset, rest) => tokensFrom fuel offset rest
        | none => [⟨.broken ⟨"unterminated block comment", offset⟩, offset⟩]
      | _ => ⟨.openParen, offset⟩ :: tokensFrom fuel (offset + 1) rest
    else if c = ')' then ⟨.closeParen, offset⟩ :: tokensFrom fuel (offset + 1) rest
    else if isWordChar c || c = '"' then
      match run (rest.length + 2) offset [] [] (c :: rest) with
      | .error fault => [⟨.broken fault, offset⟩]
      | .ok (word, strings, next, rest) =>
        let lexeme := match word, strings with
          | [], [bytes] => .string bytes
          | word, [] => ofWord word
          | ['$'], [bytes] =>
            match Text.Utf8.decode bytes with
            | .ok name => .id name
            | .error _ => .reserved
          | _, _ => .reserved
        ⟨lexeme, offset⟩ :: tokensFrom fuel next rest
    else if c = ';' then
      match rest with
      | ';' :: _ =>
        let (offset, rest) := lineComment offset (c :: rest)
        tokensFrom fuel offset rest
      | _ => ⟨.reserved, offset⟩ :: tokensFrom fuel (offset + 1) rest
    else if [',', '[', ']', '\x7b', '\x7d'].contains c then
      ⟨.reserved, offset⟩ :: tokensFrom fuel (offset + 1) rest
    else [⟨.broken ⟨"unexpected character " ++ quoted c, offset⟩, offset⟩]

def tokens (text : String) : List Token := tokensFrom (text.toList.length + 1) 0 text.toList

end ComponentHost.Wat
