import ComponentHost.Text.Column

/-!
Quoted texts, as descriptions of values show them. A quoted text stands between double quotes;
characters that could not be seen or told apart there are written behind a backslash.
-/
set_option autoImplicit false

namespace ComponentHost.Text

/-- The first and last code points of the ranges of characters that cannot be seen. -/
def unseenRanges : List (Nat × Nat) :=
  [(0x00, 0x1F), (0x7F, 0xA0), (0xAD, 0xAD), (0x2028, 0x2029), (0x3000, 0x3000), (0xE000, 0xF8FF)]

def isUnseen (c : Char) : Bool := inRanges unseenRanges c || inRanges invisibleRanges c

def byNumber (c : Char) : List Char :=
  "\\u\x7b".toList ++ Nat.toDigits 16 c.toNat ++ ['\x7d']

/-- How a character is written between double quotes; a single quote may have to be marked too. -/
def quoteChar (marksSingle : Bool) (c : Char) : List Char :=
  if c = '"' ∨ c = '\\' ∨ (c = '\'' ∧ marksSingle) then ['\\', c]
  else if c = '\n' then ['\\', 'n']
  else if c = '\r' then ['\\', 'r']
  else if c = '\t' then ['\\', 't']
  else if c.toNat = 0 then ['\\', '0']
  else if isUnseen c then byNumber c
  else [c]

def quote (s : String) : String :=
  String.ofList ('"' :: s.toList.flatMap (quoteChar false) ++ ['"'])

/-- The text of a path between double quotes; single quotes are marked. -/
def quotePath (s : String) : String :=
  String.ofList ('"' :: s.toList.flatMap (quoteChar true) ++ ['"'])

end ComponentHost.Text
