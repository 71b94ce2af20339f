import ComponentHost.Wat.Token

/-!
How a fault in a text is rendered: the message, then the line and column behind an arrow, then the
line itself with a mark below the place. A line that is longer than can be shown leaves its mark out
and names the position in the message.
-/
set_option autoImplicit false

namespace ComponentHost.Wat

def lastMarkedColumn : Nat := 500

/-- The text before an offset, cut off at the last line end before it, and the number of line ends. -/
def lineBefore : Nat → Nat → List Char → List Char → List Char × Nat
  | _, count, before, [] => (before.reverse, count)
  | offset, count, before, c :: rest =>
    if offset = 0 then (before.reverse, count)
    else if c = '\n' then lineBefore (offset - 1) (count + 1) [] rest
    else lineBefore (offset - c.utf8Size) count (c :: before) rest

/-- The line and column of an offset, both counted from one. -/
def position (text : List Char) (offset : Nat) : Nat × Nat :=
  let (before, count) := lineBefore offset 0 [] text
  (count + 1, Text.width before + 1)

def times (s : String) (n : Nat) : String := String.join (List.replicate n s)

/-- A number with blanks before it up to a width. -/
def padded (width n : Nat) : String := times " " (width - (toString n).length) ++ toString n

def Fault.render (fault : Fault) (text : String) : String :=
  let (line, column) := position text.toList fault.offset
  if column > lastMarkedColumn then s!"{fault.message} at <anon>:{line}:{column}"
  else
    let shown := String.ofList ((Text.pieces '\n' text.toList)[line - 1]?.getD [])
    s!"{fault.message}\n     --> <anon>:{line}:{column}\n      |\n {padded 4 line} | {shown}\n      | "
      ++ times " " (column - 1) ++ "^"

end ComponentHost.Wat
