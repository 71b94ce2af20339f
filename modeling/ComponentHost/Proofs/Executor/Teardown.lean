import ComponentHost.Executor
import ComponentHost.Proofs.Session.Nesting

/-! # Tearing boundaries down

Whoever uses a module and keeps nothing leaves the boundary with its context alone, so that it is gone as soon
as it is unloaded. Calling an entry point is such a use, however it ends: no wait for the boundary begins, and
so none can be cancelled. -/
set_option autoImplicit false

namespace ComponentHost

namespace Boundary

/-! ## Shares that are given back -/

variable {b : Boundary} {n m : Nat}

theorem Tallied.acquire_context (h : b.Tallied (n + 1) m) : (b.acquire .context).Tallied (n + 2) m :=
  h.acquire .context fun _ => Nat.succ_pos n

theorem Tallied.release_context (h : b.Tallied (n + 1) m) : (b.release .context).Tallied n m :=
  h.release .context (fun _ => Nat.succ_pos n) nofun

theorem Tallied.release_module (h : b.Tallied (n + 1) (m + 1)) : (b.release .module).Tallied n m :=
  h.release .module (fun _ => Nat.succ_pos n) fun _ => Nat.succ_pos m

/-- A boundary that was made has the handle to its module beside the context when it has a module, and else
the context alone. -/
theorem load_tallied {fs : FileSystem} {fuel : Nat} {settings : Settings} {id scriptId : Id}
    {request : LoadRequest} {outcome : LoadOutcome}
    (h : load fs fuel settings id scriptId request = .ok (.ok outcome)) :
    if outcome.hasModule then outcome.boundary.Tallied 2 1 else outcome.boundary.Tallied 1 0 := by
  obtain ⟨baseDir, maxMemoryBytes, loaded, hm⟩ := load_make h
  have htallied := make_tallied id baseDir maxMemoryBytes loaded
  rw [LoadOutcome.hasModule, hm]
  cases loaded with
  | none => exact htallied
  | some loaded => exact htallied

/-- Why a boundary is refused: its directory is missing, or the manifest there cannot be read or is none. -/
inductive Refuses (fs : FileSystem) (request : LoadRequest) : LoadError → Prop where
  | baseDirectoryMissing (h : fs.isDir request.baseDir = false) :
      Refuses fs request (.baseDirectoryMissing request.baseDir)
  | manifest {reason : ManifestError}
      (h : Manifest.load fs ((Path.absolute? fs.cwd request.baseDir).getD request.baseDir) = .error reason) :
      Refuses fs request (.manifest reason)

theorem load_refused {fs : FileSystem} {fuel : Nat} {settings : Settings} {id scriptId : Id}
    {request : LoadRequest} {e : LoadError}
    (h : load fs fuel settings id scriptId request = .ok (.error e)) : Refuses fs request e := by
  unfold load at h
  split at h
  · next hd =>
    cases h
    exact .baseDirectoryMissing (by simpa using hd)
  · dsimp only at h
    split at h
    · next reason hr =>
      cases h
      exact .manifest hr
    · split at h <;> cases h

end Boundary

/-- The wait for a boundary that is gone ends where it begins, whatever becomes of its token. -/
theorem Monitor.wait_gone (monitor : Monitor) (firesAt : Option Nat) :
    (monitor.wait ⟨some 0, firesAt⟩).outcome = some (.reclaimed 0) := by
  unfold Monitor.wait
  cases monitor.maxAttempts.toNat <;> rfl

namespace Executor

variable {α : Type} {fuel : Nat} {argument : String} {token : Option Token} {signals : Signals}
  {executor : Executor} {request : LoadRequest} {b b' : Boundary} {n m : Nat}

/-! ## Uses of a module -/

/-- Using a module gives back all shares that are taken, and with them the handle to the module. -/
def GivesBack (use : Boundary → Except Stall (Boundary × α)) : Prop :=
  ∀ b b' value n m, b.Tallied (n + 1) (m + 1) → use b = .ok (b', value) → b'.Tallied n m

theorem callInstance_tallied {store : Store} {entry : EntryPoint} {call : EntryCall}
    (hb : b.Tallied (n + 1) m)
    (h : callInstance fuel store entry argument token signals b = .ok (b', call)) :
    b'.Tallied (n + 1) m := by
  unfold callInstance at h
  split at h
  · cases h
  · next e he =>
    cases h
    obtain ⟨providers, hp⟩ := Boundary.execute_providers he
    rw [hp]
    exact (hb.acquire_context.withProviders providers).release_context

/-- Calling an entry point gives everything back, wherever it ends. -/
theorem callEntryPoint_givesBack (fuel : Nat) (argument : String) (token : Option Token)
    (signals : Signals) : GivesBack (callEntryPoint fuel argument token signals) := by
  intro b b' value n m hb h
  unfold callEntryPoint at h
  split at h
  · cases h
    exact hb.release_module
  · dsimp only at h
    split at h
    · cases h
    · next left e hi =>
      cases h
      obtain ⟨providers, rfl⟩ := Boundary.instantiate_providers hi
      exact (hb.acquire_context.withProviders providers).release_context.release_module
    · next left store hi =>
      obtain ⟨providers, rfl⟩ := Boundary.instantiate_providers hi
      -- the instance takes its share before the one that it was made with is given back
      have hinstance := (hb.acquire_context.withProviders providers).acquire_context.release_context
      split at h
      · cases h
      · next left call hc =>
        cases h
        exact (callInstance_tallied hinstance hc).release_context.release_module

/-! ## Runs -/

theorem unload_gone (h : b.Tallied 1 0) : (unload b).isLive = false := by
  have hgone : (unload b).Tallied 0 0 := h.requestUnload.release_context
  exact Bool.eq_false_iff.mpr fun hlive => by simpa using hgone.isLive_iff.mp hlive

theorem run_gone {use : Boundary → Except Stall (Boundary × α)} {run : ScriptRun α}
    (hu : GivesBack use) (h : executor.run request use = .ok (.ok run)) : run.boundary.isLive = false := by
  unfold Executor.run at h
  split at h
  · cases h
  · cases h
  · next outcome hl =>
    have htallied := Boundary.load_tallied hl
    split at h
    · next hm =>
      rw [if_pos hm] at htallied
      split at h
      · cases h
      · next left value hv =>
        cases h
        exact unload_gone (hu _ _ _ 1 0 htallied hv)
    · next hm =>
      cases h
      rw [if_neg hm] at htallied
      exact unload_gone htallied

theorem run_refused {use : Boundary → Except Stall (Boundary × α)} {e : LoadError}
    (h : executor.run request use = .ok (.error e)) :
    Boundary.load executor.fs executor.fuel executor.settings boundaryId scriptId request =
      .ok (.error e) := by
  unfold Executor.run at h
  split at h
  · cases h
  · next hl =>
    cases h
    exact hl
  · split at h
    · split at h <;> cases h
    · cases h

/-! ## Runs that do not end -/

theorem callEntryPoint_stall {stall : Stall} (hb : b.InOrder)
    (h : callEntryPoint fuel argument token signals b = .error stall) : stall = .unfinished := by
  have hacquire := (b.acquire_fades .context).keepsLinks
  unfold callEntryPoint at h
  split at h
  · cases h
  · dsimp only at h
    split at h
    · next hi =>
      cases h
      exact Boundary.instantiate_stall (hacquire.inOrder hb) hi
    · cases h
    · next left store hi =>
      obtain ⟨hkeeps, hserves⟩ := Boundary.instantiate_keepsLinks (hacquire.inOrder hb) hi
      have hheld := (left.acquire_fades .context).keepsLinks
      have hlent := ((left.acquire .context).release_fades .context).keepsLinks
      have hcalled := (((left.acquire .context).release .context).acquire_fades .context).keepsLinks
      split at h
      · next hc =>
        cases h
        unfold callInstance at hc
        split at hc
        · next he =>
          cases hc
          refine Boundary.execute_stall ?_ ?_ he
          · exact hcalled.inOrder (hlent.inOrder (hheld.inOrder (hkeeps.inOrder (hacquire.inOrder hb))))
          · exact hcalled.serves (hlent.serves (hheld.serves (hkeeps.serves (hserves store rfl))))
        · cases hc
      · cases h

theorem run_stall {stall : Stall}
    (h : executor.run request (callEntryPoint executor.fuel argument token signals) = .error stall) :
    stall = .unfinished := by
  unfold Executor.run at h
  split at h
  · next hl =>
    cases h
    exact Boundary.load_stall hl
  · cases h
  · next outcome hl =>
    split at h
    · split at h
      · next hc =>
        cases h
        exact callEntryPoint_stall (Boundary.load_inOrder hl) hc
      · cases h
    · cases h

/-! ## Scripts from beginning to end -/

/-- What running a script from beginning to end comes to: a report with the boundary gone at the first look,
or nothing but the refusal to make one. -/
inductive Settles (executor : Executor) (request : LoadRequest) :
    Except ExecutorError (ScriptReport α) → Prop where
  | reclaimed {report : ScriptReport α} (h : report.unload = .reclaimed 0) :
      Settles executor request (.ok report)
  | refused {e : LoadError} (h : Boundary.Refuses executor.fs request e) :
      Settles executor request (.error (.load e))

/-- A boundary that is gone is waited for in no time. -/
theorem await_settles {run : ScriptRun α} (h : run.boundary.isLive = false) (firesAt : Option Nat) :
    executor.Settles request (executor.await run firesAt) := by
  unfold await awaitUntil
  simp only [h, Bool.false_eq_true, if_false, Monitor.wait_gone]
  exact .reclaimed rfl

/-- Whatever a script does and whenever its token fires, in the call or after it, running it from beginning
to end leaves no boundary behind, unless the steps of the machine are used up before the end. -/
theorem boundary_reclaimed (executor : Executor) (request : LoadRequest) (argument : String)
    (token : Option Token) (signals : Signals) :
    (executor.executeEntryPoint request argument token signals = .error .unfinished ∨
      ∃ result, executor.executeEntryPoint request argument token signals = .ok result ∧
        executor.Settles request result) ∧
    ∀ firesAt, executor.runAndUnload request firesAt
        (callEntryPoint executor.fuel argument token signals) = .error .unfinished ∨
      ∃ result, executor.runAndUnload request firesAt
          (callEntryPoint executor.fuel argument token signals) = .ok result ∧
        executor.Settles request result := by
  have hback := callEntryPoint_givesBack executor.fuel argument token signals
  unfold executeEntryPoint runAndUnload
  match h : executor.run request (callEntryPoint executor.fuel argument token signals) with
  | .error stall =>
    cases run_stall h
    exact ⟨.inl rfl, fun _ => .inl rfl⟩
  | .ok (.error e) =>
    have hrefused := Boundary.load_refused (run_refused h)
    exact ⟨.inr ⟨_, rfl, .refused hrefused⟩, fun _ => .inr ⟨_, rfl, .refused hrefused⟩⟩
  | .ok (.ok run) =>
    have hgone := run_gone hback h
    refine ⟨.inr ⟨_, rfl, ?_⟩, fun firesAt => .inr ⟨_, rfl, await_settles hgone firesAt⟩⟩
    refine await_settles ?_ _
    exact hgone

/-- A script without an entry point is torn down like any other. -/
example : (Executor.executeEntryPoint ⟨Session.bareFiles, 1000, .standard⟩
    ⟨⟨"/base"⟩, "(component)", []⟩ "" none .quiet).toOption.any
      (fun result => result.toOption.any fun report => report.unload = .reclaimed 0) = true := by
  decide +kernel

end Executor

end ComponentHost
