/-!
Linear memories: bytes in pages of 64 KiB. A page that has only zeros is kept as an empty array, so
that a large memory costs nothing until it is written.
-/
set_option autoImplicit false

namespace ComponentHost.Core

def pageSize : Nat := 65536

def maxPages : Nat := 65536

structure Memory where
  pages : Array ByteArray
  /-- The number of pages that the memory may grow to. -/
  limit : Nat
  deriving Inhabited

namespace Memory

def zeros (pages limit : Nat) : Memory := ⟨Array.replicate pages ByteArray.empty, limit⟩

def pageCount (m : Memory) : Nat := m.pages.size

def size (m : Memory) : Nat := m.pageCount * pageSize

/-- The byte at an address; zero outside the memory. -/
def get (m : Memory) (a : Nat) : UInt8 :=
  match m.pages[a / pageSize]? with
  | none => 0
  | some page => (page[a % pageSize]?).getD 0

def setInPage (page : ByteArray) (i : Nat) (b : UInt8) : ByteArray :=
  let page := if page.isEmpty then ⟨Array.replicate pageSize 0⟩ else page
  page.set! i b

/-- The memory with a byte at an address; nothing changes outside the memory. -/
def set (m : Memory) (a : Nat) (b : UInt8) : Memory :=
  { m with pages := m.pages.modify (a / pageSize) fun page => setInPage page (a % pageSize) b }

/-- Whether so many bytes from an address on lie in the memory. -/
def holds (m : Memory) (a n : Nat) : Bool := a + n ≤ m.size

def read (m : Memory) (a n : Nat) : List UInt8 := (List.range' a n).map m.get

/-- The number that so many bytes from an address on spell, the lowest byte first. -/
def readNumber (m : Memory) (a : Nat) : Nat → Nat
  | 0 => 0
  | n + 1 => (m.get a).toNat + 256 * m.readNumber (a + 1) n

def write (m : Memory) (a : Nat) : List UInt8 → Memory
  | [] => m
  | b :: bs => (m.set a b).write (a + 1) bs

/-- Writes a number in so many bytes, the lowest byte first. -/
def writeNumber (m : Memory) (a value : Nat) : Nat → Memory
  | 0 => m
  | n + 1 => (m.set a (UInt8.ofNat value)).writeNumber (a + 1) (value / 256) n

def fill (m : Memory) (a : Nat) (b : UInt8) : Nat → Memory
  | 0 => m
  | n + 1 => (m.set a b).fill (a + 1) b n

def copyUp (m : Memory) (target source : Nat) : Nat → Memory
  | 0 => m
  | n + 1 => (m.set target (m.get source)).copyUp (target + 1) (source + 1) n

def copyDown (m : Memory) (target source : Nat) : Nat → Memory
  | 0 => m
  | n + 1 => (m.set (target + n) (m.get (source + n))).copyDown target source n

/-- Copies bytes as if all were read before the first is written. -/
def copy (m : Memory) (target source n : Nat) : Memory :=
  if target ≤ source then m.copyUp target source n else m.copyDown target source n

/-- The memory with more pages, unless that exceeds its own limit or a limit in bytes. -/
def grow? (m : Memory) (maxBytes : Option Nat) (more : Nat) : Option Memory :=
  let pages := m.pageCount + more
  if pages ≤ m.limit ∧ maxBytes.all (pages * pageSize ≤ ·) then
    some { m with pages := m.pages ++ Array.replicate more ByteArray.empty }
  else none

end Memory

end ComponentHost.Core
