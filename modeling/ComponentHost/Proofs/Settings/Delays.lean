import ComponentHost.Settings
import Mathlib.Algebra.Group.Nat.Defs

/-! # The delay that settings keep

Settings keep the delay of an unload monitor as a number of milliseconds in 64 bits. What is read back is the delay
without the part below a millisecond, up to the largest number of milliseconds, so keeping what was read back
changes nothing. The milliseconds are counted in 128 bits and the nanoseconds of what is read back in 32, and both
are wide enough: the same steps on words never overflow. -/
set_option autoImplicit false

namespace ComponentHost

/-! ## Words that may overflow -/

section Words

variable {w : Nat} {a b : BitVec w}

/-- The product of two words, where it is one. -/
def mulWord? (a b : BitVec w) : Option (BitVec w) := if a.umulOverflow b then none else some (a * b)

/-- The sum of two words, where it is one. -/
def addWord? (a b : BitVec w) : Option (BitVec w) := if a.uaddOverflow b then none else some (a + b)

theorem mulWord?_of_lt (h : a.toNat * b.toNat < 2 ^ w) :
    mulWord? a b = some (a * b) ∧ (a * b).toNat = a.toNat * b.toNat := by
  constructor
  · rw [mulWord?, if_neg]
    simpa [BitVec.umulOverflow] using h
  · rw [BitVec.toNat_mul, Nat.mod_eq_of_lt h]

theorem addWord?_of_lt (h : a.toNat + b.toNat < 2 ^ w) :
    addWord? a b = some (a + b) ∧ (a + b).toNat = a.toNat + b.toNat := by
  constructor
  · rw [addWord?, if_neg]
    simpa [BitVec.uaddOverflow] using h
  · rw [BitVec.toNat_add, Nat.mod_eq_of_lt h]

end Words

/-! ## Milliseconds of a duration -/

namespace Duration

variable {d d' : Duration}

/-- The milliseconds of a duration counted in 128 bits: those of its seconds and those among its nanoseconds. -/
def millisWord? (d : Duration) : Option (BitVec 128) := do
  let seconds ← mulWord? (d.seconds.toBitVec.setWidth 128) 1000#128
  addWord? seconds (BitVec.ofNat 128 (d.nanos / 1000000))

/-- The nanoseconds below a second of so many milliseconds, counted in 32 bits. -/
def nanosWord? (millis : UInt64) : Option (BitVec 32) :=
  mulWord? ((millis % 1000).toBitVec.setWidth 32) 1000000#32

theorem wholeMillis_eq (d : Duration) : d.wholeMillis = d.seconds.toNat * 1000 + d.nanos / 1000000 := by
  have h := d.nanos_lt
  unfold wholeMillis toNanos
  omega

theorem millisWord?_eq (d : Duration) : d.millisWord?.map BitVec.toNat = some d.wholeMillis := by
  have hs : d.seconds.toNat < 18446744073709551616 := d.seconds.toNat_lt
  have hn := d.nanos_lt
  have hseconds : (d.seconds.toBitVec.setWidth 128).toNat = d.seconds.toNat := by
    rw [BitVec.toNat_setWidth, UInt64.toNat_toBitVec, Nat.mod_eq_of_lt (by omega)]
  have hnanos : (BitVec.ofNat 128 (d.nanos / 1000000)).toNat = d.nanos / 1000000 := by
    rw [BitVec.toNat_ofNat, Nat.mod_eq_of_lt (by omega)]
  obtain ⟨hmul, hproduct⟩ :=
    mulWord?_of_lt (a := d.seconds.toBitVec.setWidth 128) (b := 1000#128) (by rw [hseconds, BitVec.toNat_ofNat]; omega)
  rw [hseconds] at hproduct
  obtain ⟨hadd, hsum⟩ :=
    addWord?_of_lt (a := d.seconds.toBitVec.setWidth 128 * 1000#128) (b := BitVec.ofNat 128 (d.nanos / 1000000))
      (by rw [hproduct, hnanos, BitVec.toNat_ofNat]; omega)
  rw [millisWord?, hmul, Option.bind_eq_bind, Option.bind_some, hadd, Option.map_some, hsum, hproduct, hnanos,
    wholeMillis_eq]
  rfl

theorem nanosWord?_eq (millis : UInt64) : (nanosWord? millis).map BitVec.toNat = some (ofMillis millis).nanos := by
  have hlt : millis.toNat % 1000 < 1000 := Nat.mod_lt _ (by decide)
  have hmillis : ((millis % 1000).toBitVec.setWidth 32).toNat = millis.toNat % 1000 := by
    have hmod : (millis % 1000).toNat = millis.toNat % 1000 := UInt64.toNat_mod millis 1000
    rw [BitVec.toNat_setWidth, UInt64.toNat_toBitVec, hmod, Nat.mod_eq_of_lt (by omega)]
  obtain ⟨hmul, hproduct⟩ :=
    mulWord?_of_lt (a := (millis % 1000).toBitVec.setWidth 32) (b := 1000000#32)
      (by rw [hmillis, BitVec.toNat_ofNat]; omega)
  rw [nanosWord?, hmul, Option.map_some, hproduct, hmillis]
  rfl

theorem toNanos_ofMillis (millis : UInt64) : (ofMillis millis).toNanos = millis.toNat * 1000000 := by
  have hseconds : (ofMillis millis).seconds.toNat = millis.toNat / 1000 := UInt64.toNat_div millis 1000
  have hnanos : (ofMillis millis).nanos = millis.toNat % 1000 * 1000000 := rfl
  rw [toNanos, hseconds, hnanos]
  omega

@[simp] theorem wholeMillis_ofMillis (millis : UInt64) : (ofMillis millis).wholeMillis = millis.toNat := by
  rw [wholeMillis, toNanos_ofMillis]
  omega

theorem wholeMillis_mono (h : d.toNanos ≤ d'.toNanos) : d.wholeMillis ≤ d'.wholeMillis :=
  Nat.div_le_div_right h

end Duration

/-! ## What is kept and what is read back -/

namespace Settings

open Duration

variable {s : Settings} {m m' : Monitor} {d : Duration}

theorem toNat_delayMillis (d : Duration) : (delayMillis d).toNat = min d.wholeMillis (UInt64.size - 1) := by
  unfold delayMillis
  split
  · next h =>
    rw [UInt64.toNat_ofNat_of_lt' h]
    omega
  · next h =>
    rw [UInt64.toNat_ofNat_of_lt' (by decide)]
    omega

@[simp] theorem delayMillis_ofMillis (millis : UInt64) : delayMillis (.ofMillis millis) = millis := by
  have hlt : millis.toNat < UInt64.size := millis.toNat_lt
  refine UInt64.toNat_inj.mp ?_
  rw [toNat_delayMillis, wholeMillis_ofMillis]
  omega

theorem withMonitor_withMonitor (s : Settings) (m m' : Monitor) :
    (s.withMonitor m).withMonitor m' = s.withMonitor m' := rfl

/-- Keeping what the settings hold changes nothing. -/
theorem withMonitor_monitor (s : Settings) : s.withMonitor s.monitor = s := by
  rw [withMonitor, monitor, delayMillis_ofMillis]

theorem monitor_withMonitor (s : Settings) (m : Monitor) :
    (s.withMonitor m).monitor = ⟨m.maxAttempts, .ofMillis (delayMillis m.delay)⟩ := rfl

theorem toNanos_monitor_withMonitor (s : Settings) (m : Monitor) :
    (s.withMonitor m).monitor.delay.toNanos = min m.delay.wholeMillis (UInt64.size - 1) * 1000000 := by
  rw [monitor_withMonitor, toNanos_ofMillis, toNat_delayMillis]

theorem toNanos_monitor_le (s : Settings) (m : Monitor) :
    (s.withMonitor m).monitor.delay.toNanos ≤ m.delay.toNanos := by
  rw [toNanos_monitor_withMonitor]
  calc min m.delay.wholeMillis (UInt64.size - 1) * 1000000
    _ ≤ m.delay.wholeMillis * 1000000 := Nat.mul_le_mul_right _ (Nat.min_le_left _ _)
    _ ≤ m.delay.toNanos := Nat.div_mul_le_self _ _

/-- Less than a millisecond is lost from a delay that fits. -/
theorem toNanos_lt_monitor (s : Settings) (h : m.delay.wholeMillis ≤ UInt64.size - 1) :
    m.delay.toNanos < (s.withMonitor m).monitor.delay.toNanos + 1000000 := by
  have hmillis : m.delay.wholeMillis = m.delay.toNanos / 1000000 := rfl
  rw [toNanos_monitor_withMonitor, Nat.min_eq_left h]
  omega

theorem toNanos_monitor_mono (s : Settings) (h : m.delay.toNanos ≤ m'.delay.toNanos) :
    (s.withMonitor m).monitor.delay.toNanos ≤ (s.withMonitor m').monitor.delay.toNanos := by
  have hmillis := wholeMillis_mono h
  rw [toNanos_monitor_withMonitor, toNanos_monitor_withMonitor]
  omega

/-- Keeping a monitor is a projection onto the monitors whose delay is a number of milliseconds in 64 bits: what the
settings hold is kept as it is, and of any other monitor the attempts and the whole milliseconds of the delay are
read back, as many as fit. Reading back is idempotent, never gives a longer delay, loses less than a millisecond of
a delay that fits, and is monotone. No other setting changes, and no step overflows. -/
theorem withMonitor_projects (s : Settings) :
    s.withMonitor s.monitor = s ∧
    ∀ m : Monitor,
      (s.withMonitor m).monitor =
        ⟨m.maxAttempts, .ofMillis (UInt64.ofNat (min m.delay.wholeMillis (UInt64.size - 1)))⟩ ∧
      (s.withMonitor m).monitor.delay.toNanos = min (m.delay.toNanos / 1000000) (2 ^ 64 - 1) * 1000000 ∧
      (s.withMonitor (s.withMonitor m).monitor).monitor = (s.withMonitor m).monitor ∧
      (s.withMonitor m).monitor.delay.toNanos ≤ m.delay.toNanos ∧
      (m.delay.toNanos / 1000000 ≤ 2 ^ 64 - 1 →
        m.delay.toNanos < (s.withMonitor m).monitor.delay.toNanos + 1000000) ∧
      (∀ m' : Monitor, m.delay.toNanos ≤ m'.delay.toNanos →
        (s.withMonitor m).monitor.delay.toNanos ≤ (s.withMonitor m').monitor.delay.toNanos) ∧
      s.withMonitor m = { s with
        unloadMaxAttempts := (s.withMonitor m).unloadMaxAttempts
        unloadDelayMillis := (s.withMonitor m).unloadDelayMillis } ∧
      m.delay.millisWord?.map BitVec.toNat = some m.delay.wholeMillis ∧
      (nanosWord? (s.withMonitor m).unloadDelayMillis).map BitVec.toNat =
        some (s.withMonitor m).monitor.delay.nanos := by
  refine ⟨withMonitor_monitor s, fun m => ⟨?_, ?_, ?_, toNanos_monitor_le s m, toNanos_lt_monitor s,
    fun m' => toNanos_monitor_mono s, rfl, millisWord?_eq m.delay, nanosWord?_eq _⟩⟩
  · rw [monitor_withMonitor, ← toNat_delayMillis, UInt64.ofNat_toNat]
  · exact toNanos_monitor_withMonitor s m
  · -- the monitor read back is what the settings with it hold
    rw [← withMonitor_withMonitor s m, withMonitor_monitor]

/-- Of 250 milliseconds and 999999 nanoseconds the milliseconds are kept, which is not more than what is kept of the
longest duration. -/
theorem withMonitor_projects_standard :
    (standard.withMonitor ⟨4, ⟨0, 250999999, by decide⟩⟩).monitor = ⟨4, .ofMillis 250⟩ ∧
    (250999999 : Nat) < (standard.withMonitor ⟨4, ⟨0, 250999999, by decide⟩⟩).monitor.delay.toNanos + 1000000 ∧
    (standard.withMonitor ⟨4, ⟨0, 250999999, by decide⟩⟩).monitor.delay.toNanos ≤
      (standard.withMonitor ⟨1, ⟨18446744073709551615, 999999999, by decide⟩⟩).monitor.delay.toNanos := by
  obtain ⟨hread, -, -, -, hlt, hmono, -⟩ :=
    (withMonitor_projects standard).2 ⟨4, ⟨0, 250999999, by decide⟩⟩
  exact ⟨hread.trans (by decide +kernel), hlt (by decide), hmono _ (by decide)⟩

end Settings

end ComponentHost
