import ComponentHost.Text.Blank

/-!
The tokens of a JSON text. A text ends in one of three ways: properly, inside a token, or at a
character that starts no token. Strings and numbers that are read for their value must meet stricter
rules than those that are only skipped, so a token that breaks off says what it means for both.
-/
set_option autoImplicit false

namespace ComponentHost.Manifest

/-- What is wrong with a text: it stops too early, it is no JSON, or it has another shape than the
one that is read. -/
inductive Fault where
  | endOfText
  | malformed
  | wrongShape
  deriving DecidableEq, Repr

inductive Token where
  | openObject
  | closeObject
  | openArray
  | closeArray
  | colon
  | comma
  /-- A string; without a value when an escape in it is half of a surrogate pair. -/
  | string (value : Option String)
  /-- A number; `fits` says whether it lies in the range of a double. -/
  | number (fits : Bool)
  | literal
  /-- The text breaks off here, in a string or in something else: what that means when the token is
  used, and when it is skipped. -/
  | broken (inString : Bool) (used skipped : Fault)
  deriving DecidableEq, Repr

/-! ## Strings -/

def hexDigit? (c : Char) : Option Nat :=
  if '0' ≤ c ∧ c ≤ '9' then some (c.toNat - 48)
  else if 'a' ≤ c ∧ c ≤ 'f' then some (c.toNat - 87)
  else if 'A' ≤ c ∧ c ≤ 'F' then some (c.toNat - 55)
  else none

/-- The number that four hexadecimal digits spell, and the text after them. A text with fewer than
four more bytes has ended. -/
def hexEscape (cs : List Char) : Except Fault (Nat × List Char) :=
  match cs with
  | a :: b :: c :: d :: rest =>
    match hexDigit? a, hexDigit? b, hexDigit? c, hexDigit? d with
    | some a, some b, some c, some d => .ok (((a * 16 + b) * 16 + c) * 16 + d, rest)
    | _, _, _, _ => .error .malformed
  | _ => .error (if (String.ofList cs).utf8ByteSize < 4 then .endOfText else .malformed)

def simpleEscape? (c : Char) : Option Char :=
  match c with
  | '"' => some '"'
  | '\\' => some '\\'
  | '/' => some '/'
  | 'b' => some '\x08'
  | 'f' => some '\x0c'
  | 'n' => some '\n'
  | 'r' => some '\r'
  | 't' => some '\t'
  | _ => none

/-- Whether a code unit is the first half of a surrogate pair. -/
def isHighSurrogate (n : Nat) : Bool := 0xD800 ≤ n && n ≤ 0xDBFF

/-- Whether a code unit is the second half of a surrogate pair. -/
def isLowSurrogate (n : Nat) : Bool := 0xDC00 ≤ n && n ≤ 0xDFFF

/-- A token that breaks off; a text whose value was spoilt before is malformed when it is used. -/
def brokenString (spoilt : Bool) (fault : Fault) : Token :=
  .broken true (if spoilt then .malformed else fault) fault

/-- A token other than a string that breaks off. -/
def brokenOther (used skipped : Fault) : Token := .broken false used skipped

/-- Reads a string behind its opening quote. `spoilt` says that half of a surrogate pair was met, and
`high` that the last escape was a first half. -/
def readString (fuel : Nat) (before : List Char) (spoilt : Bool) (high : Option Nat) :
    List Char → Token × List Char
  | [] => (brokenString spoilt .endOfText, [])
  | '"' :: rest =>
    let value := if spoilt || high.isSome then none else some (String.ofList before.reverse)
    (.string value, rest)
  | '\\' :: rest =>
    match fuel, rest with
    | 0, _ => (brokenString spoilt .malformed, [])
    | _, [] => (brokenString spoilt .endOfText, [])
    | fuel + 1, 'u' :: rest =>
      match hexEscape rest with
      | .error fault => (brokenString spoilt fault, [])
      | .ok (n, rest) =>
        match high with
        | some h =>
          if isLowSurrogate n then
            let c := Char.ofNat (0x10000 + (h - 0xD800) * 0x400 + (n - 0xDC00))
            readString fuel (c :: before) spoilt none rest
          else readString fuel before true none rest
        | none =>
          if isHighSurrogate n then readString fuel before spoilt (some n) rest
          else if isLowSurrogate n then readString fuel before true none rest
          else readString fuel (Char.ofNat n :: before) spoilt none rest
    | fuel + 1, c :: rest =>
      match simpleEscape? c with
      | none => (brokenString (spoilt || high.isSome) .malformed, [])
      | some c => readString fuel (c :: before) (spoilt || high.isSome) none rest
  | c :: rest =>
    match fuel with
    | 0 => (brokenString spoilt .malformed, [])
    | fuel + 1 =>
      if c.toNat < 0x20 then (brokenString (spoilt || high.isSome) .malformed, [])
      else readString fuel (c :: before) (spoilt || high.isSome) none rest

/-! ## Numbers -/

/-- The digits at the start of a text, and the text after them. -/
def digits (cs : List Char) : List Char × List Char :=
  (cs.takeWhile Char.isDigit, cs.dropWhile Char.isDigit)

def value (ds : List Char) : Nat := ds.foldl (fun n c => n * 10 + (c.toNat - 48)) 0

/-- The least number that is too large for a double: it lies halfway above the greatest one. -/
def tooLarge : Nat := (1 <<< 1024) - (1 <<< 970)

/-- Whether a number with these digits before and after its point, times ten to the exponent, lies in
the range of a double. An exponent far beyond the digits that are written settles the question by
itself. -/
def fits (whole fraction : List Char) (negative : Bool) (exponent : Nat) : Bool :=
  let mantissa := value (whole ++ fraction)
  let written := (whole ++ fraction).length
  if mantissa = 0 then true
  else if negative then
    exponent > written || mantissa < tooLarge * Nat.pow 10 (fraction.length + exponent)
  else if exponent > 400 + written then false
  else mantissa * Nat.pow 10 exponent < tooLarge * Nat.pow 10 fraction.length

/-- Reads the exponent of a number behind its letter. -/
def readExponent (whole fraction : List Char) (cs : List Char) : Token × List Char :=
  let (negative, cs) := match cs with
    | '+' :: rest => (false, rest)
    | '-' :: rest => (true, rest)
    | _ => (false, cs)
  match digits cs with
  | ([], []) => (brokenOther .endOfText .malformed, [])
  | ([], _) => (brokenOther .malformed .malformed, [])
  | (ds, rest) => (.number (fits whole fraction negative (value ds)), rest)

/-- Reads the part of a number behind its whole digits. -/
def readFraction (whole : List Char) (cs : List Char) : Token × List Char :=
  match cs with
  | '.' :: rest =>
    match digits rest with
    | ([], []) => (brokenOther .endOfText .malformed, [])
    | ([], _) => (brokenOther .malformed .malformed, [])
    | (ds, 'e' :: rest) => readExponent whole ds rest
    | (ds, 'E' :: rest) => readExponent whole ds rest
    | (ds, rest) => (.number (fits whole ds false 0), rest)
  | 'e' :: rest => readExponent whole [] rest
  | 'E' :: rest => readExponent whole [] rest
  | _ => (.number (fits whole [] false 0), cs)

def readNumber (cs : List Char) : Token × List Char :=
  match digits cs with
  | ([], _) => (brokenOther .malformed .malformed, [])
  | (['0'], rest) => readFraction ['0'] rest
  | ('0' :: _, _) => (brokenOther .malformed .malformed, [])
  | (ds, rest) => readFraction ds rest

/-! ## The whole text -/

def readLiteral : List Char → List Char → Token × List Char
  | [], cs => (.literal, cs)
  | _ :: _, [] => (brokenOther .endOfText .endOfText, [])
  | c :: word, d :: cs => if c = d then readLiteral word cs else (brokenOther .malformed .malformed, [])

/-- The token that starts with a character which is no white space. -/
def next (c : Char) (rest : List Char) : Token × List Char :=
  match c with
  | '{' => (.openObject, rest)
  | '}' => (.closeObject, rest)
  | '[' => (.openArray, rest)
  | ']' => (.closeArray, rest)
  | ':' => (.colon, rest)
  | ',' => (.comma, rest)
  | '"' => readString rest.length [] false none rest
  | '-' => readNumber rest
  | 'n' => readLiteral ['u', 'l', 'l'] rest
  | 't' => readLiteral ['r', 'u', 'e'] rest
  | 'f' => readLiteral ['a', 'l', 's', 'e'] rest
  | c => if c.isDigit then readNumber (c :: rest) else (brokenOther .malformed .malformed, [])

/-- The tokens of a text, of which each uses up at least one character. -/
def tokensFrom : Nat → List Char → List Token
  | 0, _ => []
  | _, [] => []
  | fuel + 1, c :: rest =>
    if c = ' ' || c = '\n' || c = '\t' || c = '\r' then tokensFrom fuel rest
    else
      match next c rest with
      | (.broken inString used skipped, _) => [.broken inString used skipped]
      | (token, rest) => token :: tokensFrom fuel rest

/-- The tokens of a text; none follows one that breaks off. -/
def tokens (text : String) : List Token := tokensFrom (text.toList.length + 1) text.toList

end ComponentHost.Manifest
