/-!
White space and trimming. A character is blank when it has the Unicode property `White_Space`;
trimming removes blanks from the ends of a text and nothing else.
-/
set_option autoImplicit false

namespace ComponentHost.Text

/-- The characters with the property `White_Space`. The zero width space and the byte order mark
are not among them. -/
def isBlank (c : Char) : Bool :=
  (0x09 ≤ c.toNat && c.toNat ≤ 0x0D) || c.toNat == 0x20 || c.toNat == 0x85 || c.toNat == 0xA0
    || c.toNat == 0x1680 || (0x2000 ≤ c.toNat && c.toNat ≤ 0x200A) || c.toNat == 0x2028
    || c.toNat == 0x2029 || c.toNat == 0x202F || c.toNat == 0x205F || c.toNat == 0x3000

def trimStart (cs : List Char) : List Char :=
  cs.dropWhile isBlank

def trimEnd (cs : List Char) : List Char :=
  (cs.reverse.dropWhile isBlank).reverse

def trim (s : String) : String :=
  String.ofList (trimEnd (trimStart s.toList))

/-! ## Lines -/

/-- The pieces of a text between the characters equal to `sep`; there is always one. -/
def pieces (sep : Char) : List Char → List (List Char)
  | [] => [[]]
  | c :: cs =>
    match pieces sep cs with
    | [] => [[c]]
    | p :: ps => if c = sep then [] :: p :: ps else (c :: p) :: ps

/-- A line without the carriage return that ends it. -/
def dropReturn (line : List Char) : List Char :=
  if line.getLast? = some '\r' then line.dropLast else line

/-- The lines of a text: a line feed ends a line, so none follows the last line feed, and a
carriage return before it belongs to the line end. -/
def lines (cs : List Char) : List (List Char) :=
  let ps := pieces '\n' cs
  if ps.getLast? = some [] then ps.dropLast.map dropReturn
  else ps.dropLast.map dropReturn ++ [ps.getLast?.getD []]

end ComponentHost.Text
