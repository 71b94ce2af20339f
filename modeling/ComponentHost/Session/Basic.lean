import ComponentHost.Boundary.Load
import ComponentHost.Boundary.Use
import ComponentHost.Monitor

/-!
Sessions: named handles to boundaries and to what they hand out. Every handle has a share in its
boundary from when it is made until it is dropped.
-/
set_option autoImplicit false

namespace ComponentHost

inductive Handle where
  | context (boundary : Nat)
  | module (boundary : Nat)
  | compiled (boundary : Nat)
  | entry (boundary : Nat) (entry : EntryPoint)
  | running (boundary : Nat) (entry : EntryPoint) (store : Store)
  | observer (boundary : Nat)
  | token (token : Token)

namespace Handle

def boundary? : Handle → Option Nat
  | .context b => some b
  | .module b => some b
  | .compiled b => some b
  | .entry b _ => some b
  | .running b _ _ => some b
  | .observer b => some b
  | .token _ => none

/-- The share that a handle has in its boundary. An observer has none. -/
def share : Handle → Share
  | .context _ => .context
  | .module _ => .module
  | .compiled _ => .compiled
  | .entry _ _ => .context
  | .running _ _ _ => .context
  | .observer _ => ⟨false, false⟩
  | .token _ => ⟨false, false⟩

end Handle

structure Session where
  fs : FileSystem
  /-- The steps that every run may take. -/
  fuel : Nat
  /-- All boundaries that were ever made. -/
  boundaries : List Boundary
  handles : List (String × Handle)
  /-- The boundary that each load made, if it made one. -/
  loads : List (String × Option Nat)
  /-- The tokens that have fired. -/
  fired : List Token
  /-- The number of the next identity. -/
  nextId : Nat
  /-- The number of the next token. -/
  nextToken : Nat

namespace Session

def start (fs : FileSystem) (fuel : Nat) : Session where
  fs
  fuel
  boundaries := []
  handles := []
  loads := []
  fired := []
  nextId := 0
  nextToken := 0

def handle? (s : Session) (name : String) : Option Handle := s.handles.lookup name

def update (s : Session) (boundary : Nat) (f : Boundary → Boundary) : Session :=
  { s with boundaries := s.boundaries.modify boundary f }

def acquire (s : Session) (h : Handle) : Session :=
  match h.boundary? with
  | some b => s.update b (·.acquire h.share)
  | none => s

def release (s : Session) (h : Handle) : Session :=
  match h.boundary? with
  | some b => s.update b (·.release h.share)
  | none => s

/-- Takes a handle out of the session without giving its share back. -/
def remove (s : Session) (name : String) : Session :=
  { s with handles := s.handles.filter (·.1 != name) }

/-- Drops a handle, if there is one of that name. -/
def drop (s : Session) (name : String) : Session :=
  match s.handle? name with
  | none => s
  | some h => (s.remove name).release h

/-- Puts a handle that has its share under a name; a handle that had the name is dropped. -/
def bind (s : Session) (name : String) (h : Handle) : Session :=
  let s := s.drop name
  { s with handles := (name, h) :: s.handles }

def add (s : Session) (name : String) (h : Handle) : Session := (s.acquire h).bind name h

/-- Puts a handle under its name in place of itself. -/
def replace (s : Session) (name : String) (h : Handle) : Session :=
  { s with handles := s.handles.map fun entry => if entry.1 == name then (name, h) else entry }

/-! ## What can be seen -/

def liveness (s : Session) : List (String × Bool) :=
  s.handles.filterMap fun
    | (name, .observer b) => some (name, (s.boundaries[b]?).any Boundary.isLive)
    | _ => none

/-- For each context, where it is in its life. -/
def lifecycles (s : Session) : List (String × Lifecycle) :=
  s.handles.filterMap fun
    | (name, .context b) => (s.boundaries[b]?).map fun b => (name, b.lifecycle)
    | _ => none

/-- For each load, how many times its callback has been called. -/
def callbacks (s : Session) : List (String × Nat) :=
  s.loads.map fun (name, b) => (name, ((b.bind (s.boundaries[·]?)).map Boundary.fired).getD 0)

/-- The session when everything but its observers has been dropped. -/
def close (s : Session) : Session :=
  s.handles.foldl (fun s (name, h) =>
    match h with
    | .observer _ => s
    | _ => s.drop name) s

end Session

end ComponentHost
