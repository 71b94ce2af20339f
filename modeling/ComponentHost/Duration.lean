/-!
Durations: a number of whole seconds that fits 64 bits, and nanoseconds below one second.
-/
set_option autoImplicit false

namespace ComponentHost

structure Duration where
  seconds : UInt64
  nanos : Nat
  nanos_lt : nanos < 1000000000 := by decide
  deriving DecidableEq

namespace Duration

def toNanos (d : Duration) : Nat := d.seconds.toNat * 1000000000 + d.nanos

def wholeMillis (d : Duration) : Nat := d.toNanos / 1000000

def ofMillis (millis : UInt64) : Duration where
  seconds := millis / 1000
  nanos := (millis.toNat % 1000) * 1000000
  nanos_lt := by omega

/-- So many seconds and nanoseconds; whole seconds among the nanoseconds are carried. -/
def ofParts (seconds nanos : Nat) : Duration where
  seconds := UInt64.ofNat (seconds + nanos / 1000000000)
  nanos := nanos % 1000000000
  nanos_lt := Nat.mod_lt _ (by decide)

end Duration

end ComponentHost
