import ComponentHost.FileSystem
import ComponentHost.Monitor
import ComponentHost.Settings.Toml

/-!
The settings that every boundary of a host shares. Each key of a settings text is optional, a key
that is none of them is an error, and so is a value of another kind or out of range.
-/
set_option autoImplicit false

namespace ComponentHost

inductive OptimizationLevel where
  | debug
  | release
  deriving DecidableEq, Repr

structure Settings where
  optimization : OptimizationLevel
  warningsAsErrors : Bool
  /-- The largest size of a linear memory in bytes; unlimited when absent. -/
  maxMemoryBytes : Option UInt64
  unloadMaxAttempts : UInt32
  unloadDelayMillis : UInt64
  deriving DecidableEq, Repr

namespace Settings

/-- The milliseconds of a duration, at most the largest number of 64 bits. -/
def delayMillis (d : Duration) : UInt64 :=
  if d.wholeMillis < UInt64.size then UInt64.ofNat d.wholeMillis else UInt64.ofNat (UInt64.size - 1)

def standard : Settings where
  optimization := .release
  warningsAsErrors := false
  maxMemoryBytes := none
  unloadMaxAttempts := Monitor.standard.maxAttempts
  unloadDelayMillis := delayMillis Monitor.standard.delay

/-- The settings with another unload monitor, whose delay is kept in whole milliseconds. -/
def withMonitor (s : Settings) (m : Monitor) : Settings :=
  { s with unloadMaxAttempts := m.maxAttempts, unloadDelayMillis := delayMillis m.delay }

def monitor (s : Settings) : Monitor := ⟨s.unloadMaxAttempts, .ofMillis s.unloadDelayMillis⟩

/-! ## Reading -/

inductive Error where
  | unreadable (path : Path) (fault : ReadFault)
  | malformed
  deriving DecidableEq, Repr

def level? : String → Option OptimizationLevel
  | "debug" => some .debug
  | "release" => some .release
  | _ => none

/-- Whether a value holds nothing, as what stands beside a name that is written as a key must. -/
def isVoid : Toml.Value → Bool
  | .array [] => true
  | .table _ [] => true
  | _ => false

/-- The optimization level of a value: its name, or a table that has the name as its key. -/
def levelOf? : Toml.Value → Option OptimizationLevel
  | .string name => level? name
  | .table isInline ((name, value) :: rest) =>
    if isVoid value && (rest.isEmpty || !isInline) then level? name else none
  | _ => none

def number? (bound : Nat) : Toml.Value → Option Nat
  | .integer n => if 0 ≤ n ∧ n < bound then some n.toNat else none
  | _ => none

def set? (s : Settings) (key : String) (value : Toml.Value) : Option Settings :=
  match key with
  | "optimization-level" => (levelOf? value).map fun level => { s with optimization := level }
  | "warnings-as-errors" =>
    match value with
    | .boolean b => some { s with warningsAsErrors := b }
    | _ => none
  | "max-memory-bytes" =>
    (number? UInt64.size value).map fun n => { s with maxMemoryBytes := some (UInt64.ofNat n) }
  | "unload-max-attempts" =>
    (number? UInt32.size value).map fun n => { s with unloadMaxAttempts := UInt32.ofNat n }
  | "unload-delay-ms" =>
    (number? UInt64.size value).map fun n => { s with unloadDelayMillis := UInt64.ofNat n }
  | _ => none

def parse (text : String) : Except Error Settings :=
  match Toml.parse? text with
  | none => .error .malformed
  | some entries =>
    match entries.foldlM (fun s e => set? s e.1 e.2) standard with
    | none => .error .malformed
    | some s => .ok s

def load (fs : FileSystem) (path : Path) : Except Error Settings :=
  match fs.readText path with
  | .error fault => .error (.unreadable path fault)
  | .ok text => parse text

end Settings

end ComponentHost
