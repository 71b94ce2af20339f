import ComponentHost.Monitor
import Mathlib.Algebra.Order.Floor.Div
import Mathlib.Data.ENat.Lattice

/-! # The schedule of a wait

A monitor looks at a boundary once at the start and again after every delay. It finds the boundary gone after
the least number of delays that reaches the time at which it went, unless its attempts are used up or the
token of its caller fires before. What a wait comes to, and when, is found by division. -/
set_option autoImplicit false

namespace ComponentHost

namespace Course

variable {course : Course} {delay : Nat}

/-! ## Looking at a boundary -/

/-- After how many delays a boundary is seen to be gone, if it ever is. -/
def goneAfter (course : Course) (delay : Nat) : ℕ∞ :=
  match course.goneAt with
  | none => ⊤
  | some r => (r ⌈/⌉ delay : ℕ)

/-- It is the least number of delays that reaches the time at which the boundary goes. -/
theorem goneAfter_le_iff (hd : 0 < delay) (n : ℕ) :
    course.goneAfter delay ≤ n ↔ ∃ r, course.goneAt = some r ∧ r ≤ n * delay := by
  unfold goneAfter
  cases course.goneAt with
  | none => simp
  | some r =>
    have h : r ⌈/⌉ delay ≤ n ↔ r ≤ delay * n := ceilDiv_le_iff_le_mul hd
    simp [h, Nat.mul_comm]

theorem isLive_mul_iff (hd : 0 < delay) (n : ℕ) :
    course.isLive (n * delay) = true ↔ n < course.goneAfter delay := by
  rw [← not_le, goneAfter_le_iff hd]
  unfold isLive
  cases course.goneAt with
  | none => simp
  | some r => simp

/-! ## Sleeping -/

/-- How often a wait sleeps that may sleep so often and is not cancelled. -/
def sleeps (course : Course) (delay most : Nat) : Nat :=
  match course.goneAt with
  | none => most
  | some r => min (r ⌈/⌉ delay) most

theorem coe_sleeps (course : Course) (delay most : Nat) :
    (course.sleeps delay most : ℕ∞) = min (course.goneAfter delay) most := by
  unfold sleeps goneAfter
  cases course.goneAt with
  | none => exact (min_eq_right le_top).symm
  | some r => exact Nat.mono_cast.map_min

theorem sleeps_le (course : Course) (delay most : Nat) : course.sleeps delay most ≤ most := by
  have h : (course.sleeps delay most : ℕ∞) ≤ most := by
    rw [coe_sleeps]
    exact min_le_right _ _
  exact_mod_cast h

theorem sleeps_of_le {k most : Nat} (hk : course.goneAfter delay = k) (hle : k ≤ most) :
    course.sleeps delay most = k := by
  have h := coe_sleeps course delay most
  rw [hk, min_eq_left (by exact_mod_cast hle)] at h
  exact_mod_cast h

theorem sleeps_of_lt {most : Nat} (h : most < course.goneAfter delay) :
    course.sleeps delay most = most := by
  have hs := coe_sleeps course delay most
  rw [min_eq_right h.le] at hs
  exact_mod_cast hs

theorem isLive_of_lt_sleeps (hd : 0 < delay) {i most : Nat} (h : i < course.sleeps delay most) :
    course.isLive (i * delay) = true := by
  rw [isLive_mul_iff hd]
  have hi : (i : ℕ∞) < course.sleeps delay most := by exact_mod_cast h
  rw [coe_sleeps] at hi
  exact hi.trans_le (min_le_left _ _)

theorem gone_of_sleeps_lt (hd : 0 < delay) {most : Nat} (h : course.sleeps delay most < most) :
    course.isLive (course.sleeps delay most * delay) = false := by
  rw [Bool.eq_false_iff, ne_eq, isLive_mul_iff hd]
  intro hlive
  rcases lt_or_ge (most : ℕ∞) (course.goneAfter delay) with hlt | hge
  · rw [sleeps_of_lt hlt] at h
    omega
  · rw [coe_sleeps, min_eq_left hge] at hlive
    exact lt_irrefl _ hlive

/-- The token of a wait does not fire before a time. -/
def QuietUntil (course : Course) (time : Nat) : Prop := ∀ c, course.firesAt = some c → time ≤ c

theorem QuietUntil.mono {time time' : Nat} (h : course.QuietUntil time) (hle : time' ≤ time) :
    course.QuietUntil time' := fun c hc => hle.trans (h c hc)

theorem interrupts?_of_quiet {now : Nat} (hd : 0 < delay) (h : course.QuietUntil (now + delay)) :
    course.interrupts? now delay = none := by
  unfold interrupts?
  cases hf : course.firesAt with
  | none => rfl
  | some c =>
    have hc := h c hf
    have hnow : ¬ c ≤ now := by omega
    have hsleep : ¬ c < now + delay := by omega
    simp [hnow, hsleep]

theorem interrupts?_of_fires {now c : Nat} (hf : course.firesAt = some c) (hc : now ≤ c)
    (hsleep : c < now + delay) : course.interrupts? now delay = some c := by
  unfold interrupts?
  rw [hf]
  by_cases hnow : c ≤ now
  · have he : c = now := by omega
    simp [he]
  · simp [hnow, hsleep]

/-! ## Waiting on -/

/-- A wait that is not cancelled before it has slept so often ends then, if the boundary is gone or the
attempts are used up, and not before. -/
theorem poll_of_quiet (hd : 0 < delay) {n left e : Nat} (hn : n ≤ e) (he : e ≤ n + left)
    (hlive : ∀ i < e, course.isLive (i * delay) = true)
    (hend : e < n + left → course.isLive (e * delay) = false) (hquiet : course.QuietUntil (e * delay)) :
    course.poll delay (n * delay) n left = course.finish (e * delay) e := by
  induction left generalizing n with
  | zero =>
    have hne : n = e := by omega
    rw [hne]
    rfl
  | succ left ih =>
    rw [poll]
    by_cases hne : n = e
    · subst hne
      rw [hend (by omega)]
      rfl
    · have hlt : n < e := by omega
      have hnext : n * delay + delay = (n + 1) * delay := by rw [Nat.add_mul, Nat.one_mul]
      have hsleep : (n + 1) * delay ≤ e * delay := Nat.mul_le_mul_right delay hlt
      rw [hlive n hlt, if_pos rfl, interrupts?_of_quiet hd (hquiet.mono (hnext ▸ hsleep)), hnext]
      exact ih hlt (by omega) (fun hleft => hend (by omega))

/-- A wait ends with its token, if the boundary is there at every look before. -/
theorem poll_of_fires (hd : 0 < delay) {n left c : Nat} (hf : course.firesAt = some c)
    (hn : n * delay ≤ c) (hlive : ∀ i, i * delay ≤ c → course.isLive (i * delay) = true) (hleft : c < (n + left) * delay) :
    course.poll delay (n * delay) n left = ⟨none, c / delay, c⟩ := by
  induction left generalizing n with
  | zero =>
    rw [Nat.add_zero] at hleft
    omega
  | succ left ih =>
    have hnext : n * delay + delay = (n + 1) * delay := by rw [Nat.add_mul, Nat.one_mul]
    rw [poll, hlive n hn, if_pos rfl]
    by_cases hsleep : c < (n + 1) * delay
    · rw [interrupts?_of_fires hf hn (hnext ▸ hsleep)]
      have hattempts : c / delay = n := Nat.div_eq_of_lt_le hn hsleep
      rw [hattempts]
    · have hquiet : course.QuietUntil (n * delay + delay) := by
        intro c' hc'
        rw [hf] at hc'
        cases hc'
        omega
      rw [interrupts?_of_quiet hd hquiet, hnext]
      refine ih (by omega) ?_
      rwa [Nat.add_right_comm, Nat.add_assoc]

/-! ## A whole wait -/

/-- A wait whose token does not fire before it has slept as often as it may ends then. -/
theorem poll_sleeps (hd : 0 < delay) {most : Nat}
    (hquiet : course.QuietUntil (course.sleeps delay most * delay)) :
    course.poll delay 0 0 most = course.finish (course.sleeps delay most * delay) (course.sleeps delay most) := by
  have hle : course.sleeps delay most ≤ 0 + most := by
    rw [Nat.zero_add]
    exact course.sleeps_le delay most
  have hend : course.sleeps delay most < 0 + most →
      course.isLive (course.sleeps delay most * delay) = false := by
    rw [Nat.zero_add]
    exact gone_of_sleeps_lt hd
  have h := poll_of_quiet hd (Nat.zero_le _) hle (fun i hi => isLive_of_lt_sleeps hd hi) hend hquiet
  rwa [Nat.zero_mul] at h

theorem poll_fires (hd : 0 < delay) {most c : Nat} (hf : course.firesAt = some c)
    (hc : c < course.sleeps delay most * delay) : course.poll delay 0 0 most = ⟨none, c / delay, c⟩ := by
  have hlive : ∀ i, i * delay ≤ c → course.isLive (i * delay) = true := by
    intro i hi
    exact isLive_of_lt_sleeps hd (Nat.lt_of_mul_lt_mul_right (hi.trans_lt hc))
  have hleft : c < (0 + most) * delay := by
    rw [Nat.zero_add]
    exact hc.trans_le (Nat.mul_le_mul_right delay (course.sleeps_le delay most))
  have h := poll_of_fires hd hf (by omega) hlive hleft
  rwa [Nat.zero_mul] at h

/-- Every wait ends with its token or as if it had none. -/
theorem poll_cases (hd : 0 < delay) (course : Course) (most : Nat) :
    (∃ c, c < course.sleeps delay most * delay ∧ course.poll delay 0 0 most = ⟨none, c / delay, c⟩) ∨
      course.poll delay 0 0 most = course.finish (course.sleeps delay most * delay) (course.sleeps delay most) := by
  by_cases hquiet : course.QuietUntil (course.sleeps delay most * delay)
  · exact .inr (poll_sleeps hd hquiet)
  · unfold QuietUntil at hquiet
    push Not at hquiet
    obtain ⟨c, hf, hc⟩ := hquiet
    exact .inl ⟨c, hc, poll_fires hd hf hc⟩

theorem attempts_le (hd : 0 < delay) (course : Course) (most : Nat) :
    (course.poll delay 0 0 most).attempts ≤ most := by
  have hle := course.sleeps_le delay most
  rcases poll_cases hd course most with ⟨c, hc, h⟩ | h
  · have hlt : c / delay < course.sleeps delay most := Nat.div_lt_of_lt_mul (by rwa [Nat.mul_comm])
    rw [h]
    dsimp only
    omega
  · rw [h]
    exact hle

theorem elapsed_le (hd : 0 < delay) (course : Course) (most : Nat) :
    (course.poll delay 0 0 most).elapsed ≤ most * delay := by
  have hle := Nat.mul_le_mul_right delay (course.sleeps_le delay most)
  rcases poll_cases hd course most with ⟨c, hc, h⟩ | h
  · rw [h]
    dsimp only
    omega
  · rw [h]
    exact hle

theorem eq_of_exhausted (hd : 0 < delay) {most n : Nat}
    (h : (course.poll delay 0 0 most).outcome = some (.exhausted n)) :
    n = most ∧ course.poll delay 0 0 most = course.finish (most * delay) most ∧
      course.isLive (most * delay) = true := by
  rcases poll_cases hd course most with ⟨c, -, hp⟩ | hp
  · rw [hp] at h
    cases h
  · rw [hp] at h
    unfold finish at h
    cases hlive : course.isLive (course.sleeps delay most * delay) with
    | false => simp [hlive] at h
    | true =>
      -- the boundary is there after the last sleep, so all attempts have been made
      have hs : course.sleeps delay most = most := by
        refine (course.sleeps_le delay most).eq_of_not_lt fun hlt => ?_
        rw [gone_of_sleeps_lt hd hlt] at hlive
        cases hlive
      rw [hs] at h hp hlive
      simp only [hlive, if_true, Option.some.injEq, UnloadOutcome.exhausted.injEq] at h
      exact ⟨h.symm, hp, hlive⟩

theorem poll_at_once (hd : 0 < delay) {most : Nat} (h : course.isLive 0 = false ∨ most = 0) :
    course.poll delay 0 0 most = course.finish 0 0 := by
  have hs : course.sleeps delay most = 0 := by
    rcases h with hgone | hmost
    · by_contra hne
      have hlive := isLive_of_lt_sleeps (i := 0) hd (Nat.pos_of_ne_zero hne)
      rw [Nat.zero_mul, hgone] at hlive
      cases hlive
    · have hle := course.sleeps_le delay most
      omega
  have hquiet : course.QuietUntil (course.sleeps delay most * delay) := by
    rw [hs, Nat.zero_mul]
    exact fun c _ => Nat.zero_le c
  rw [poll_sleeps hd hquiet, hs, Nat.zero_mul]

/-! ## The closed form -/

/-- What a wait comes to that sleeps for a delay, and so often at most. -/
structure Scheduled (course : Course) (delay most : Nat) (wait : Wait) : Prop where
  /-- The token fires while the wait would still go on. -/
  cancelled : ∀ c, course.firesAt = some c → c < course.sleeps delay most * delay →
    wait = ⟨none, c / delay, c⟩
  /-- The boundary goes before the attempts are used up. -/
  reclaimed : course.QuietUntil (course.sleeps delay most * delay) →
    ∀ k : ℕ, course.goneAfter delay = k → k ≤ most → wait = ⟨some (.reclaimed k), k, k * delay⟩
  /-- The attempts are used up before the boundary goes. -/
  exhausted : course.QuietUntil (course.sleeps delay most * delay) →
    most < course.goneAfter delay → wait = ⟨some (.exhausted most), most, most * delay⟩
  attempts_le : wait.attempts ≤ most
  elapsed_le : wait.elapsed ≤ most * delay
  /-- A boundary is given up only when it is there after all attempts. -/
  live : ∀ n, wait.outcome = some (.exhausted n) →
    n = most ∧ wait.attempts = most ∧ course.isLive wait.elapsed = true
  /-- Where there is nothing to wait for, the wait is over at once, even if the token has fired. -/
  atOnce : course.isLive 0 = false ∨ most = 0 → wait = course.finish 0 0

theorem poll_scheduled (hd : 0 < delay) (course : Course) (most : Nat) :
    course.Scheduled delay most (course.poll delay 0 0 most) := by
  have hgone : ∀ k : ℕ, course.goneAfter delay = k → course.isLive (k * delay) = false := by
    intro k hk
    rw [Bool.eq_false_iff, ne_eq, isLive_mul_iff hd, hk]
    exact lt_irrefl _
  refine ⟨fun c hf hc => poll_fires hd hf hc, ?reclaimed, ?exhausted, ?attempts, ?elapsed, ?live, ?atOnce⟩
  case reclaimed =>
    intro hquiet k hk hkm
    rw [poll_sleeps hd hquiet, sleeps_of_le hk hkm]
    simp [finish, hgone k hk]
  case exhausted =>
    intro hquiet hlt
    rw [poll_sleeps hd hquiet, sleeps_of_lt hlt]
    simp [finish, (isLive_mul_iff hd most).mpr hlt]
  case attempts => exact attempts_le hd course most
  case elapsed => exact elapsed_le hd course most
  case live =>
    intro n h
    obtain ⟨hn, hp, hlive⟩ := eq_of_exhausted hd h
    rw [hp]
    exact ⟨hn, rfl, hlive⟩
  case atOnce => exact poll_at_once hd

end Course

namespace Monitor

/-- A wait sleeps until its boundary is seen to be gone or its attempts are used up, whichever takes fewer
delays, and a token that fires before cancels it there and then. It always ends, it makes no more attempts
than it may, and it gives a boundary up only when that is there after all of them. -/
theorem wait_scheduled (monitor : Monitor) (course : Course) (hd : 0 < monitor.delay.toNanos) :
    (∀ n : ℕ, course.goneAfter monitor.delay.toNanos ≤ n ↔
      ∃ r, course.goneAt = some r ∧ r ≤ n * monitor.delay.toNanos) ∧
    ((course.sleeps monitor.delay.toNanos monitor.maxAttempts.toNat : ℕ∞) =
      min (course.goneAfter monitor.delay.toNanos) monitor.maxAttempts.toNat) ∧
    course.Scheduled monitor.delay.toNanos monitor.maxAttempts.toNat (monitor.wait course) :=
  ⟨Course.goneAfter_le_iff hd, course.coe_sleeps _ _, Course.poll_scheduled hd course _⟩

/-- A boundary that goes after a quarter of a second is found gone after the third delay of a tenth, unless a
token fires in the second. -/
theorem late_release_reclaimed_or_cancelled :
    0 < Monitor.standard.delay.toNanos ∧
      Monitor.standard.wait ⟨some 250000000, none⟩ = ⟨some (.reclaimed 3), 3, 300000000⟩ ∧
      Monitor.standard.wait ⟨some 250000000, some 120000000⟩ = ⟨none, 1, 120000000⟩ := by
  have hd : 0 < Monitor.standard.delay.toNanos := by decide
  have hgone : ∀ firesAt, (Course.mk (some 250000000) firesAt).goneAfter Monitor.standard.delay.toNanos = (3 : ℕ) :=
    fun _ => rfl
  have hsleeps : ∀ firesAt, (Course.mk (some 250000000) firesAt).sleeps Monitor.standard.delay.toNanos
      Monitor.standard.maxAttempts.toNat = 3 := fun firesAt => Course.sleeps_of_le (hgone firesAt) (by decide)
  refine ⟨hd, ?reclaimed, ?cancelled⟩
  case reclaimed =>
    obtain ⟨-, -, hwait⟩ := wait_scheduled .standard ⟨some 250000000, none⟩ hd
    exact hwait.reclaimed nofun 3 (hgone none) (by decide)
  case cancelled =>
    obtain ⟨-, -, hwait⟩ := wait_scheduled .standard ⟨some 250000000, some 120000000⟩ hd
    refine hwait.cancelled 120000000 rfl ?_
    rw [hsleeps]
    decide

end Monitor

end ComponentHost
