import ComponentHost.Boundary.Load
import ComponentHost.Boundary.Use
import ComponentHost.Monitor

/-!
Executing scripts from beginning to end: loading a script into a boundary, handing its module to
whoever wants to use it, unloading the boundary, and waiting for it to go.
-/
set_option autoImplicit false

namespace ComponentHost

/-- Why a script that was loaded gave no result. -/
inductive ScriptError where
  | entryPoint (error : EntryPointError)
  | invocation (error : InvocationError)

inductive ExecutorError where
  | load (error : LoadError)
  | unload (error : UnloadError)
  deriving DecidableEq, Repr

structure Executor where
  fs : FileSystem
  /-- The steps that every run may take. -/
  fuel : Nat
  settings : Settings

structure ScriptRun (α : Type) where
  /-- The boundary, whose unloading has been asked for. -/
  boundary : Boundary
  /-- What came of using the module, or the diagnostics that kept it from being loaded. -/
  result : Except (List Diagnostic) α
  diagnostics : List Diagnostic

/-- A script that was loaded, used, unloaded and waited for. -/
structure ScriptReport (α : Type) where
  result : Except (List Diagnostic) α
  diagnostics : List Diagnostic
  unload : UnloadOutcome

namespace Executor

def boundaryId : Id := ⟨0⟩

def scriptId : Id := ⟨1⟩

/-- The diagnostics that kept a module from being loaded: the errors, or, when there are none, the
warnings that were taken for errors. -/
def reasons (diagnostics : List Diagnostic) : List Diagnostic :=
  let errors := diagnostics.filter Diagnostic.isError
  if errors.isEmpty then diagnostics else errors

/-- Unloads a boundary and drops the handle to it. -/
def unload (b : Boundary) : Boundary := b.requestUnload.release .context

/-- Loads a script, has its module used, and unloads the boundary. Using a module ends with its handle,
apart from what is kept. -/
def run {α : Type} (executor : Executor) (request : LoadRequest)
    (use : Boundary → Except Stall (Boundary × α)) : Except Stall (Except LoadError (ScriptRun α)) :=
  match Boundary.load executor.fs executor.fuel executor.settings boundaryId scriptId request with
  | .error stall => .error stall
  | .ok (.error e) => .ok (.error e)
  | .ok (.ok outcome) =>
    if outcome.hasModule then
      match use outcome.boundary with
      | .error stall => .error stall
      | .ok (boundary, value) => .ok (.ok ⟨unload boundary, .ok value, outcome.diagnostics⟩)
    else
      .ok (.ok ⟨unload outcome.boundary, .error (reasons outcome.diagnostics), outcome.diagnostics⟩)

/-- Waits for the boundary of a run to go. What still holds it may be dropped in the course of the wait. A
token may fire while the wait goes on, or may have fired before. -/
def awaitUntil {α : Type} (executor : Executor) (run : ScriptRun α) (droppedAt firesAt : Option Nat) :
    Except ExecutorError (ScriptReport α) :=
  let goneAt := if run.boundary.isLive then droppedAt else some 0
  let wait := executor.settings.monitor.wait ⟨goneAt, firesAt⟩
  match wait.outcome with
  | none => .error (.unload (.cancelled run.boundary.id.number wait.attempts))
  | some unload => .ok ⟨run.result, run.diagnostics, unload⟩

/-- Waits for a boundary when whatever still holds it is kept. -/
def await {α : Type} (executor : Executor) (run : ScriptRun α) (firesAt : Option Nat) :
    Except ExecutorError (ScriptReport α) := executor.awaitUntil run none firesAt

def runAndUnload {α : Type} (executor : Executor) (request : LoadRequest) (firesAt : Option Nat)
    (use : Boundary → Except Stall (Boundary × α)) :
    Except Stall (Except ExecutorError (ScriptReport α)) :=
  match executor.run request use with
  | .error stall => .error stall
  | .ok (.error e) => .ok (.error (.load e))
  | .ok (.ok run) => .ok (executor.await run firesAt)

/-! ## Calling the entry point -/

/-- What came of an entry point, and the signals by then. -/
structure EntryCall where
  result : Except ScriptError String
  signals : Signals

/-- Calls an instance. The call has a share in the boundary until it is over. -/
def callInstance (fuel : Nat) (store : Store) (entry : EntryPoint) (argument : String)
    (token : Option Token) (signals : Signals) (b : Boundary) : Except Stall (Boundary × EntryCall) :=
  match (b.acquire .context).execute fuel store entry argument token signals with
  | .error stall => .error stall
  | .ok e => .ok (e.boundary.release .context, ⟨e.result.mapError .invocation, e.signals⟩)

/-- Finds the entry point of a module, makes an instance and calls it. All handles are dropped. -/
def callEntryPoint (fuel : Nat) (argument : String) (token : Option Token) (signals : Signals)
    (b : Boundary) : Except Stall (Boundary × EntryCall) :=
  match b.resolve .standard with
  | .error e => .ok (b.release .module, ⟨.error (.entryPoint e), signals⟩)
  | .ok entry =>
    let b := b.acquire .context
    match b.instantiate fuel with
    | .error stall => .error stall
    | .ok (b, .error e) =>
      .ok ((b.release .context).release .module, ⟨.error (.entryPoint e), signals⟩)
    | .ok (b, .ok store) =>
      let b := (b.acquire .context).release .context
      match callInstance fuel store entry argument token signals b with
      | .error stall => .error stall
      | .ok (b, call) => .ok ((b.release .context).release .module, call)

/-- Loads a script, calls its entry point, unloads it and waits. The token of the call may have fired when
the wait begins. -/
def executeEntryPoint (executor : Executor) (request : LoadRequest) (argument : String)
    (token : Option Token) (signals : Signals) :
    Except Stall (Except ExecutorError (ScriptReport (Except ScriptError String))) :=
  match executor.run request (callEntryPoint executor.fuel argument token signals) with
  | .error stall => .error stall
  | .ok (.error e) => .ok (.error (.load e))
  | .ok (.ok run) =>
    let signals := match run.result with
      | .ok call => call.signals
      | .error _ => signals
    let firesAt := if token.any signals.hasFired then some 0 else none
    .ok (executor.await ⟨run.boundary, run.result.map EntryCall.result, run.diagnostics⟩ firesAt)

/-! ## Looking at the entry point -/

/-- What is kept of a module that was looked at. -/
inductive Keep where
  | nothing
  | module
  | compiled
  | entry
  | running
  deriving DecidableEq, Repr

/-- What a look at a module found, and the share of what was kept. -/
structure Inspection where
  seen : Except EntryPointError EntryPoint
  kept : Option Share

/-- Finds the entry point of a module, and keeps something of it where that is possible. -/
def inspect (fuel : Nat) (keep : Keep) (b : Boundary) : Except Stall (Boundary × Inspection) :=
  let seen := b.resolve .standard
  let keeping (b : Boundary) (share : Share) : Boundary × Inspection :=
    ((b.acquire share).release .module, ⟨seen, some share⟩)
  let nothing (b : Boundary) : Boundary × Inspection := (b.release .module, ⟨seen, none⟩)
  match keep, seen with
  | .nothing, _ => .ok (nothing b)
  | .module, _ => .ok (keeping b .module)
  | .compiled, _ => .ok (keeping b .compiled)
  | .entry, .ok _ => .ok (keeping b .context)
  | .entry, .error _ => .ok (nothing b)
  | .running, .ok _ =>
    match b.instantiate fuel with
    | .error stall => .error stall
    | .ok (b, .ok _) => .ok (keeping b .context)
    | .ok (b, .error _) => .ok (nothing b)
  | .running, .error _ => .ok (nothing b)

end Executor

end ComponentHost
