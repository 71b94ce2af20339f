import ComponentHost.Boundary.Describe
import ComponentHost.Session.Basic

/-!
The steps of a session, each with its answer. A step that names a handle which is not there, or is of
another kind, changes nothing.
-/
set_option autoImplicit false

namespace ComponentHost

inductive LoadSettings where
  /-- The standard settings at an optimization level. -/
  | level (level : OptimizationLevel)
  /-- The settings of a text. -/
  | text (text : String)
  deriving Repr

inductive SessionStep where
  | load (name : String) (settings : LoadSettings) (request : LoadRequest)
  | resolve (of name : String) (contract : Contract)
  | instantiate (of name : String)
  /-- Calls an instance; the token may fire so many milliseconds into the call. -/
  | execute (of argument : String) (token : Option String) (cancelAfter : Option Nat)
  | token (name : String)
  | cancel (of : String)
  | observe (of name : String)
  | unload (of name : String)
  | compiled (of name : String)
  | ids (of : String)
  | clone (of name : String)
  | drop (of : String)
  | describe (of : String)
  /-- Waits for a boundary to go. A handle may be dropped and the token may fire so many milliseconds
  into the wait. -/
  | wait (of : String) (monitor : Monitor) (released : Option (String × Nat)) (token : Option String)
      (cancelAfter : Option Nat)

inductive SessionAnswer where
  | noSuchHandle
  | done
  | loaded (outcome : LoadOutcome)
  | refused (error : LoadError)
  | badSettings (error : Settings.Error)
  | resolved (result : Except EntryPointError EntryPoint)
  | instantiated (result : Except EntryPointError EntryPoint)
  | executed (result : Except InvocationError String)
  | observed (boundary : Boundary)
  | unloaded (boundary : Boundary)
  | script (script : Script)
  | identities (boundary script : Id)
  | described (text : String)
  | waited (boundary : Boundary) (wait : Wait)

/-- How a wait that has no outcome is reported. -/
def UnloadError.message : UnloadError → String
  | .cancelled boundary attempts =>
    s!"Unload Cancelled: boundary {(Id.mk boundary).text} still live after {attempts} attempts"
  | .timeout attempts => s!"Unload Timed Out: boundary still live after {attempts} attempts"

def Wait.result (wait : Wait) (boundary : Id) : Except UnloadError UnloadOutcome :=
  match wait.outcome with
  | some outcome => .ok outcome
  | none => .error (.cancelled boundary.number wait.attempts)

/-- The steps of a run that pass for a millisecond. -/
def stepsPerMilli : Nat := 1000

def nanosOfMillis (millis : Nat) : Nat := millis * 1000000

namespace Session

abbrev Outcome : Type := Except Stall (Session × SessionAnswer)

def same (s : Session) (answer : SessionAnswer) : Outcome := .ok (s, answer)

def token? (s : Session) (name : String) : Option Token :=
  match s.handle? name with
  | some (.token token) => some token
  | _ => none

def settingsOf : LoadSettings → Except Settings.Error Settings
  | .level level => .ok { Settings.standard with optimization := level }
  | .text text => Settings.parse text

/-- The session with the boundary that a load made, if it made one. -/
def recordLoad (s : Session) (name : String) (boundary : Option Nat) : Session :=
  { s with loads := (name, boundary) :: s.loads.filter (·.1 != name) }

/-- The name of the module that a load makes. -/
def moduleName (name : String) : String := name ++ ".module"

def load (s : Session) (name : String) (settings : LoadSettings) (request : LoadRequest) : Outcome :=
  match settingsOf settings with
  | .error e => .ok (s.recordLoad name none, .badSettings e)
  | .ok settings =>
    match Boundary.load s.fs s.fuel settings ⟨s.nextId⟩ ⟨s.nextId + 1⟩ request with
    | .error stall => .error stall
    | .ok (.error e) => .ok (s.recordLoad name none, .refused e)
    | .ok (.ok outcome) =>
      let number := s.boundaries.length
      let s := { s with boundaries := s.boundaries ++ [outcome.boundary], nextId := s.nextId + 2 }
      let s := (s.recordLoad name (some number)).bind name (.context number)
      let s := if outcome.hasModule then s.bind (moduleName name) (.module number) else s
      .ok (s, .loaded outcome)

def instantiate (s : Session) (of name : String) : Outcome :=
  match s.handle? of with
  | some (.entry b entry) =>
    match s.boundaries[b]? with
    | none => s.same .noSuchHandle
    | some boundary =>
      match boundary.instantiate s.fuel with
      | .error stall => .error stall
      | .ok (boundary, .error e) => .ok (s.update b fun _ => boundary, .instantiated (.error e))
      | .ok (boundary, .ok store) =>
        .ok ((s.update b fun _ => boundary).add name (.running b entry store), .instantiated (.ok entry))
  | _ => s.same .noSuchHandle

def execute (s : Session) (of argument : String) (token : Option String) (cancelAfter : Option Nat) :
    Outcome :=
  match s.handle? of with
  | some (.running b entry store) =>
    match s.boundaries[b]? with
    | none => s.same .noSuchHandle
    | some boundary =>
      let token := token.bind s.token?
      let alarm := match token, cancelAfter with
        | some token, some millis => some (millis * stepsPerMilli, token)
        | _, _ => none
      match boundary.execute s.fuel store entry argument token ⟨s.fired, alarm⟩ with
      | .error stall => .error stall
      | .ok e =>
        let s := (s.update b fun _ => e.boundary).replace of (.running b entry e.store)
        .ok ({ s with fired := e.signals.fired }, .executed e.result)
  | _ => s.same .noSuchHandle

/-- What happens while a wait for a boundary goes on. -/
def course (s : Session) (b : Nat) (boundary : Boundary) (released : Option (Handle × Nat))
    (token : Option Token) (cancelAfter : Option Nat) : Course where
  goneAt :=
    if !boundary.isLive then some 0
    else
      match released with
      | some (h, millis) =>
        if h.boundary? = some b ∧ (boundary.release h.share).isLive = false then
          some (nanosOfMillis millis)
        else none
      | none => none
  firesAt :=
    match token with
    | none => none
    | some token => if s.fired.contains token then some 0 else cancelAfter.map nanosOfMillis

def fireToken (s : Session) (token : Token) : Session :=
  if s.fired.contains token then s else { s with fired := token :: s.fired }

/-- Waits for a boundary to go. The released handle is dropped by the end of the wait, and the token
fires if the wait lasts that long. -/
def wait (s : Session) (of : String) (monitor : Monitor) (released : Option (String × Nat))
    (token : Option String) (cancelAfter : Option Nat) : Outcome :=
  match s.handle? of with
  | some (.observer b) =>
    match s.boundaries[b]? with
    | none => s.same .noSuchHandle
    | some boundary =>
      let token := token.bind s.token?
      let taken := released.bind fun (name, millis) => (s.handle? name).map fun h => (h, millis)
      let wait := monitor.wait (s.course b boundary taken token cancelAfter)
      let s := match released with
        | some (name, _) => s.drop name
        | none => s
      let s := match token, cancelAfter with
        | some token, some millis =>
          if nanosOfMillis millis ≤ wait.elapsed then s.fireToken token else s
        | _, _ => s
      .ok (s, .waited boundary wait)
  | _ => s.same .noSuchHandle

def describe (s : Session) (h : Handle) : Option String :=
  match h with
  | .token token =>
    some (ComponentHost.describe "CancellationToken"
      [("is_cancelled", if s.fired.contains token then "true" else "false")] false)
  | h => do
    let b ← h.boundary?
    let boundary ← s.boundaries[b]?
    match h with
    | .context _ => some boundary.description
    | .module _ => boundary.compiled.map boundary.moduleDescription
    | .compiled _ => boundary.compiled.map CompiledScript.description
    | .entry _ entry => some (boundary.entryDescription entry)
    | .running _ entry _ => some (boundary.instanceDescription entry)
    | .observer _ => some boundary.observerDescription
    | .token _ => none

/-- Another handle of the same kind, if the kind allows it. -/
def isCloneable : Handle → Bool
  | .module _ | .compiled _ | .entry _ _ | .observer _ | .token _ => true
  | .context _ | .running _ _ _ => false

def step (s : Session) : SessionStep → Outcome
  | .load name settings request => s.load name settings request
  | .resolve of name contract =>
    match s.handle? of with
    | some (.module b) =>
      match s.boundaries[b]? with
      | none => s.same .noSuchHandle
      | some boundary =>
        match boundary.resolve contract with
        | .error e => s.same (.resolved (.error e))
        | .ok entry => .ok (s.add name (.entry b entry), .resolved (.ok entry))
    | _ => s.same .noSuchHandle
  | .instantiate of name => s.instantiate of name
  | .execute of argument token cancelAfter => s.execute of argument token cancelAfter
  | .token name =>
    .ok ({ s with nextToken := s.nextToken + 1 }.add name (.token ⟨s.nextToken⟩), .done)
  | .cancel of =>
    match s.token? of with
    | some token => .ok (s.fireToken token, .done)
    | none => s.same .noSuchHandle
  | .observe of name =>
    match s.handle? of with
    | some (.context b) =>
      match s.boundaries[b]? with
      | none => s.same .noSuchHandle
      | some boundary => .ok (s.add name (.observer b), .observed boundary)
    | _ => s.same .noSuchHandle
  | .unload of name =>
    match s.handle? of with
    | some (.context b) =>
      let s := ((s.update b Boundary.requestUnload).drop of).add name (.observer b)
      match s.boundaries[b]? with
      | none => s.same .noSuchHandle
      | some boundary => s.same (.unloaded boundary)
    | _ => s.same .noSuchHandle
  | .compiled of name =>
    match s.handle? of with
    | some (.module b) =>
      match (s.boundaries[b]?).bind Boundary.script? with
      | none => s.same .noSuchHandle
      | some script => .ok (s.add name (.compiled b), .script script)
    | _ => s.same .noSuchHandle
  | .ids of =>
    match s.handle? of with
    | some (.module b) =>
      match s.boundaries[b]? with
      | some boundary =>
        match boundary.compiled with
        | some compiled => s.same (.identities boundary.id compiled.id)
        | none => s.same .noSuchHandle
      | none => s.same .noSuchHandle
    | _ => s.same .noSuchHandle
  | .clone of name =>
    match s.handle? of with
    | some h => if isCloneable h then .ok (s.add name h, .done) else s.same .noSuchHandle
    | none => s.same .noSuchHandle
  | .drop of =>
    match s.handle? of with
    | some _ => .ok (s.drop of, .done)
    | none => s.same .noSuchHandle
  | .describe of =>
    match (s.handle? of).bind s.describe with
    | some text => s.same (.described text)
    | none => s.same .noSuchHandle
  | .wait of monitor released token cancelAfter => s.wait of monitor released token cancelAfter

end Session

end ComponentHost
