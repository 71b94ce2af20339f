import ComponentHost.Core.Memory

/-! # Sizes of memories

Nothing that is written to a memory changes its size, and a memory grows only within its own limit and the
limit in bytes that it is given. -/
set_option autoImplicit false

namespace ComponentHost.Core.Memory

variable (m : Memory)

@[simp] theorem size_set (a : Nat) (b : UInt8) : (m.set a b).size = m.size := by
  simp [set, size, pageCount]

@[simp] theorem size_write (a : Nat) (bytes : List UInt8) : (m.write a bytes).size = m.size := by
  induction bytes generalizing m a with
  | nil => rfl
  | cons b bytes ih => rw [write, ih, size_set]

@[simp] theorem size_writeNumber (a value n : Nat) : (m.writeNumber a value n).size = m.size := by
  induction n generalizing m a value with
  | zero => rfl
  | succ n ih => rw [writeNumber, ih, size_set]

@[simp] theorem size_fill (a : Nat) (b : UInt8) (n : Nat) : (m.fill a b n).size = m.size := by
  induction n generalizing m a with
  | zero => rfl
  | succ n ih => rw [fill, ih, size_set]

@[simp] theorem size_copyUp (target source n : Nat) : (m.copyUp target source n).size = m.size := by
  induction n generalizing m target source with
  | zero => rfl
  | succ n ih => rw [copyUp, ih, size_set]

@[simp] theorem size_copyDown (target source n : Nat) : (m.copyDown target source n).size = m.size := by
  induction n generalizing m with
  | zero => rfl
  | succ n ih => rw [copyDown, ih, size_set]

@[simp] theorem size_copy (target source n : Nat) : (m.copy target source n).size = m.size := by
  unfold copy
  split <;> simp

@[simp] theorem size_zeros (pages limit : Nat) : (zeros pages limit).size = pages * pageSize := by
  simp [zeros, size, pageCount]

/-- A memory that has no more bytes than a limit, if there is one. -/
def Within (limit : Option Nat) (m : Memory) : Prop := ∀ most, limit = some most → m.size ≤ most

variable {m} {limit : Option Nat}

theorem Within.of_size {m' : Memory} (h : m.Within limit) (hs : m'.size = m.size) : m'.Within limit := by
  intro most hl
  rw [hs]
  exact h most hl

theorem within_grow? {grown : Memory} {more : Nat} (h : m.grow? limit more = some grown) :
    grown.Within limit := by
  rintro most rfl
  unfold grow? at h
  dsimp only at h
  split at h
  · next hle =>
    cases h
    have hbytes : (m.pageCount + more) * pageSize ≤ most := of_decide_eq_true hle.2
    simpa [size, pageCount] using hbytes
  · cases h

theorem within_zeros {pages : Nat} (most : Nat) (h : limit.all (pages * pageSize ≤ ·) = true) :
    (zeros pages most).Within limit := by
  rintro n rfl
  simpa using h

end ComponentHost.Core.Memory
