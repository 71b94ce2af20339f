import ComponentHost.Text.Blank

/-!
Diagnostics: what compiling or loading a script reports to whoever wrote it. A diagnostic may be read
from the rendering of a parse fault, whose first line is the message and one of whose lines holds the
position behind an arrow.
-/
set_option autoImplicit false

namespace ComponentHost

inductive Severity where
  | warning
  | error
  deriving DecidableEq, Repr

def Severity.word : Severity → String
  | .warning => "warning"
  | .error => "error"

def Severity.max : Severity → Severity → Severity
  | .warning, s => s
  | .error, _ => .error

structure Location where
  line : Nat
  column : Nat
  deriving DecidableEq, Repr

structure Diagnostic where
  severity : Severity
  location : Option Location
  message : String
  deriving DecidableEq, Repr

namespace Diagnostic

def error (message : String) : Diagnostic := ⟨.error, none, message⟩

def warning (message : String) : Diagnostic := ⟨.warning, none, message⟩

def located (d : Diagnostic) (location : Location) : Diagnostic := { d with location := some location }

def isError (d : Diagnostic) : Bool := d.severity = .error

/-- The line that shows a diagnostic to a reader. -/
def display (d : Diagnostic) : String :=
  match d.location with
  | some ⟨line, column⟩ => s!"<script>:{line}:{column}: {d.severity.word}: {d.message}"
  | none => s!"<script>: {d.severity.word}: {d.message}"

def hasErrors (ds : List Diagnostic) : Bool := ds.any isError

def worst? (ds : List Diagnostic) : Option Severity :=
  ds.foldl (fun worst d => some ((worst.getD .warning).max d.severity)) none

/-! ## Reading a rendered fault -/

def digit? (c : Char) : Option Nat :=
  if '0' ≤ c ∧ c ≤ '9' then some (c.toNat - 48) else none

/-- Reads digits after a number read so far, up to the largest 64-bit number. -/
def readDigits (n : Nat) : List Char → Option Nat
  | [] => some n
  | c :: cs =>
    match digit? c with
    | none => none
    | some d => if n * 10 + d < UInt64.size then readDigits (n * 10 + d) cs else none

/-- Reads a whole text as a 64-bit number; a plus sign may stand before the digits. -/
def readNumber : List Char → Option Nat
  | [] => none
  | ['+'] => none
  | '+' :: cs => readDigits 0 cs
  | cs => readDigits 0 cs

/-- The text before the last colon, if there is one, and the text after it. -/
def splitLastColon (cs : List Char) : Option (List Char) × List Char :=
  let after := (cs.reverse.takeWhile (· ≠ ':')).reverse
  match cs.reverse.dropWhile (· ≠ ':') with
  | [] => (none, after)
  | _ :: before => (some before.reverse, after)

/-- What follows the arrow on the first line that starts with one. -/
def arrowLine? : List (List Char) → Option (List Char)
  | [] => none
  | line :: rest =>
    match Text.trimStart line with
    | '-' :: '-' :: '>' :: position => some (Text.trimEnd (Text.trimStart position))
    | _ => arrowLine? rest

/-- The location that a rendering names: line and column are the last two of the numbers that colons
separate behind its arrow. -/
def locationIn? (rendering : List Char) : Option Location :=
  match arrowLine? (Text.lines rendering) with
  | none => none
  | some position =>
    match splitLastColon position with
    | (none, _) => none
    | (some before, column) =>
      match readNumber column, readNumber (splitLastColon before).2 with
      | some column, some line => some ⟨line, column⟩
      | _, _ => none

def ofRendering (rendering : String) : Diagnostic :=
  let first := match Text.lines rendering.toList with
    | [] => "malformed source"
    | line :: _ => Text.trim (String.ofList line)
  { severity := .error, location := locationIn? rendering.toList, message := first }

end Diagnostic

end ComponentHost
