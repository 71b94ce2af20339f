import ComponentHost.Compiler
import ComponentHost.Dependency.Link

/-!
Boundaries. A boundary owns everything that was loaded for one script. It is kept by counting who
holds it: owners hold the boundary itself, holders only the compiled script in it. It is live as long
as there is either. The callback of a boundary fires once, when it is unloaded or when its last owner
goes, whichever comes first.
-/
set_option autoImplicit false

namespace ComponentHost

/-- The identity of a boundary or of a compiled script. -/
structure Id where
  number : Nat
  deriving DecidableEq, Repr

def Id.text (id : Id) : String :=
  let digits := toString id.number
  "00000000-0000-4000-8000-" ++ "".pushn '0' (12 - digits.length) ++ digits

/-- Where a boundary is in its life, as its owners see it. -/
inductive Lifecycle where
  | created
  | active
  | unloadRequested
  deriving DecidableEq, Repr

def Lifecycle.word : Lifecycle → String
  | .created => "Created"
  | .active => "Active"
  | .unloadRequested => "UnloadRequested"

structure CompiledScript where
  id : Id
  script : Script

inductive Content where
  /-- Nothing could be loaded. -/
  | created
  | active (linked : Linked)
  | unloadRequested

/-- The stage of life that a content belongs to. -/
def Content.lifecycle : Content → Lifecycle
  | .created => .created
  | .active _ => .active
  | .unloadRequested => .unloadRequested

/-- What is left of a content when nothing owns it any more. -/
def Content.abandoned : Content → Content
  | .active _ => .created
  | content => content

structure Boundary where
  id : Id
  baseDir : Path
  maxMemoryBytes : Option Nat
  /-- The script that was loaded. -/
  compiled : Option CompiledScript
  content : Content
  /-- Whether the callback is still to be called. -/
  hasCallback : Bool
  /-- How many times the callback has been called. -/
  fired : Nat
  /-- How many hold the boundary. -/
  owners : Nat
  /-- How many hold the compiled script. -/
  holders : Nat

structure Share where
  /-- Whether it holds the boundary. -/
  owns : Bool
  /-- Whether it holds the compiled script. -/
  holds : Bool
  deriving DecidableEq, Repr

namespace Boundary

def lifecycle (b : Boundary) : Lifecycle := b.content.lifecycle

/-- Whether a module is loaded that can be used. -/
def isActive (b : Boundary) : Bool := b.lifecycle = .active

def isLive (b : Boundary) : Bool := 0 < b.owners || 0 < b.holders

def script? (b : Boundary) : Option Script := b.compiled.map CompiledScript.script

/-- Takes the callback and calls it, if it is still there. -/
def fire (b : Boundary) : Boundary :=
  if b.hasCallback then { b with hasCallback := false, fired := b.fired + 1 } else b

/-- Gives up what is loaded, and with it the script that it holds. -/
def empty (b : Boundary) (content : Content) : Boundary :=
  match b.content with
  | .active _ => { b with content, holders := b.holders - 1 }
  | _ => { b with content }

/-- Unloads: what is loaded is given up, and the callback is called. -/
def requestUnload (b : Boundary) : Boundary := (b.empty .unloadRequested).fire

def acquire (b : Boundary) (share : Share) : Boundary :=
  { b with owners := b.owners + share.owns.toNat, holders := b.holders + share.holds.toNat }

/-- A handle gives its share back. When the last owner goes, so does what is loaded. -/
def release (b : Boundary) (share : Share) : Boundary :=
  let left := { b with owners := b.owners - share.owns.toNat, holders := b.holders - share.holds.toNat }
  if share.owns && left.owners = 0 then (left.empty left.content.abandoned).fire else left

end Boundary

end ComponentHost
