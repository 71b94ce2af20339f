import ComponentHost.Core.Arithmetic
import ComponentHost.Text.Utf8

/-!
Traps: the reasons for which running code stops without an answer. A trap in one component goes
through every component that waits for it.
-/
set_option autoImplicit false

namespace ComponentHost

inductive Trap where
  -- what instructions do
  | unreachable
  | arithmetic (fault : Core.ArithmeticFault)
  | memoryOutOfBounds
  | uninitializedElement
  | undefinedElement
  | stackExhausted
  -- what components keep to
  | cannotEnter
  | cannotLeave
  | degenerate
  -- values that cross a boundary
  | invalidText (fault : Text.Utf8.Fault)
  | stringOutOfBounds
  | resultPointerMisaligned
  | resultPointerOutOfBounds
  | areaMisaligned
  | areaOutOfBounds
  | listOutOfBounds
  | listMisaligned
  | charOutOfRange
  /-- A number stands for no case, of so many that there are or that are left. -/
  | discriminant (given cases : Nat)
  | textTooLong (bytes : Nat)
  | sizeOutOfRange
  | allocationMisaligned
  | allocationOutOfBounds
  -- what one component asks of another
  | missingFunction (interface function : String)
  | notFunction (interface function : String)
  | argumentCount (expected given : Nat)
  | resultCount (expected given : Nat)
  | typeMismatch (expected found : String)
  | itemCount (expected given : Nat)
  | fieldCount (expected given : Nat)
  | fieldName (expected given : String)
  -- what the host asks for
  | memoryLimit (pages : Nat)
  | interrupted
  /-- No rule of the machine applies. -/
  | stuck
  deriving DecidableEq, Repr

def Trap.message : Trap → String
  | .unreachable => "wasm trap: wasm \x60unreachable\x60 instruction executed"
  | .arithmetic .divideByZero => "wasm trap: integer divide by zero"
  | .arithmetic .overflow => "wasm trap: integer overflow"
  | .memoryOutOfBounds => "wasm trap: out of bounds memory access"
  | .uninitializedElement => "wasm trap: uninitialized element"
  | .undefinedElement => "wasm trap: undefined element: out of bounds table access"
  | .stackExhausted => "wasm trap: call stack exhausted"
  | .cannotEnter => "wasm trap: cannot enter component instance"
  | .cannotLeave => "wasm trap: cannot leave component instance"
  | .degenerate => "wasm trap: degenerate component adapter called"
  | .invalidText fault => fault.message
  | .stringOutOfBounds => "string pointer/length out of bounds of memory"
  | .resultPointerMisaligned => "return pointer not aligned"
  | .resultPointerOutOfBounds => "pointer out of bounds of memory"
  | .areaMisaligned => "pointer not aligned"
  | .areaOutOfBounds => "pointer out of bounds"
  | .listOutOfBounds => "list pointer/length out of bounds of memory"
  | .listMisaligned => "list pointer is not aligned"
  | .charOutOfRange => "converted integer out of range for \x60char\x60"
  | .discriminant given cases => s!"discriminant {given} out of range [0..{cases})"
  | .textTooLong bytes => s!"string length of {bytes} too large to copy into linear memory"
  | .sizeOutOfRange => "out of range integral type conversion attempted"
  | .allocationMisaligned => "realloc return: result not aligned"
  | .allocationOutOfBounds => "realloc return: beyond end of memory"
  | .missingFunction interface function => s!"\x60{interface}\x60 does not export \x60{function}\x60"
  | .notFunction interface function => s!"\x60{interface}#{function}\x60 is not a function"
  | .argumentCount expected given => s!"expected {expected} argument(s), got {given}"
  | .resultCount expected given => s!"expected {expected} result(s), got {given}"
  | .typeMismatch expected found => s!"type mismatch: expected {expected}, found {found}"
  | .itemCount expected given => s!"expected {expected} types, got {given}"
  | .fieldCount expected given => s!"expected {expected} fields, got {given}"
  | .fieldName expected given => s!"expected field \x60{expected}\x60, got \x60{given}\x60"
  | .memoryLimit pages => s!"memory minimum size of {pages} pages exceeds memory limits"
  | .interrupted => "invocation cancelled"
  | .stuck => "the machine is stuck"

end ComponentHost
