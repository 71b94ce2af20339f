import ComponentHost.Proofs.Boundary.Presence
import ComponentHost.Proofs.Executor.Teardown
import ComponentHost.Proofs.Session.Liveness

/-! # Runs and their clients

Whoever uses a module is a client: a program of steps, each of them chosen by the answers so far. It may do
with the module, and with whatever else it loads, all that can be done in a session, and keep what it likes.
A run calls its client once or not at all, unloads the boundary in either case, and leaves it live just as
long as something that the client kept does. -/
set_option autoImplicit false

namespace ComponentHost

/-! ## Clients -/

inductive Client (α : Type) where
  | done (value : α)
  | act (op : SessionStep) (next : SessionAnswer → Client α)

/-- What a client ends with: its value, and the session with the handles that are still there. -/
structure Client.End (α : Type) where
  value : α
  session : Session

namespace Client

variable {α : Type} {executor : Executor} {request : LoadRequest} {b : Boundary}

def perform : Client α → Session → Except Stall (End α)
  | .done value, s => .ok ⟨value, s⟩
  | .act op next, s =>
    match s.step op with
    | .error stall => .error stall
    | .ok (t, a) => (next a).perform t

/-- The session that a client begins with: one boundary, and the handle to its module. -/
def enter (executor : Executor) (b : Boundary) : Session where
  fs := executor.fs
  fuel := executor.fuel
  boundaries := [b]
  handles := [("module", .module 0)]
  loads := []
  fired := []
  nextId := 2
  nextToken := 0

def use (client : Client α) (executor : Executor) (b : Boundary) : Except Stall (Boundary × End α) :=
  match client.perform (enter executor b) with
  | .error stall => .error stall
  | .ok e => .ok (e.session.boundaries.headD b, e)

/-- The session when the boundary has been unloaded behind the client. -/
def End.left (e : End α) : Session := (e.session.update 0 Boundary.requestUnload).release (.context 0)

/-! ## What a client leaves -/

theorem enter_kept (h : b.Tallied 2 1) (ha : b.isActive = true) :
    (enter executor b).Kept [.context 0] where
  names := List.nodup_singleton _
  accounted := by
    have honly : ∀ n boundary, (enter executor b).boundaries[n]? = some boundary →
        n = 0 ∧ b = boundary := by
      intro n boundary hn
      obtain ⟨hlt, rfl⟩ := List.getElem?_eq_some_iff.mp hn
      exact ⟨Nat.lt_one_iff.mp hlt, (List.getElem_singleton hlt).symm⟩
    constructor
    case placed =>
      intro h hh n hn
      rcases List.mem_pair.mp hh with rfl | rfl <;> cases hn <;> exact Nat.zero_lt_one
    case tallied =>
      intro n boundary hn
      obtain ⟨rfl, rfl⟩ := honly n boundary hn
      exact h
    case loaded =>
      intro n boundary hn _ hc
      obtain ⟨rfl, rfl⟩ := honly n boundary hn
      have hl : b.lifecycle = .active := by simpa [Boundary.isActive] using ha
      cases hl.symm.trans hc

/-- A client keeps the ledger of its session, and takes no boundary away. -/
theorem perform_kept {client : Client α} {s : Session} {e : End α} {extra : List Handle}
    (hk : s.Kept extra) (h : client.perform s = .ok e) :
    e.session.Kept extra ∧ s.boundaries.length ≤ e.session.boundaries.length := by
  induction client generalizing s with
  | done value =>
    cases h
    exact ⟨hk, Nat.le_refl _⟩
  | act op next ih =>
    rw [perform] at h
    split at h
    · cases h
    · next t a hs =>
      have hlength : s.boundaries.length ≤ t.boundaries.length :=
        hk.step_keep (P := fun u => s.boundaries.length ≤ u.boundaries.length)
          (fun hu hm => Nat.le_trans hu hm.length_le) (fun u n hu => by rwa [Session.update_length])
          (Nat.le_refl _) hs
      obtain ⟨hk', hlength'⟩ := ih a (hk.step hs) h
      exact ⟨hk', Nat.le_trans hlength hlength'⟩

theorem End.left_handles (e : End α) : e.left.handles = e.session.handles := by
  simp [left]

/-- Behind a client, the ledger counts what the client kept and nothing else. -/
theorem use_left {client : Client α} {b' : Boundary} {e : End α} (hb : b.Tallied 2 1)
    (ha : b.isActive = true) (h : client.use executor b = .ok (b', e)) :
    client.perform (enter executor b) = .ok e ∧ e.left.Kept [] ∧
      e.left.boundaries[0]? = some (Executor.unload b') := by
  unfold use at h
  split at h
  · cases h
  · next e' he =>
    cases h
    obtain ⟨hk, hlength⟩ := perform_kept (enter_kept hb ha) he
    refine ⟨he, (hk.requestUnload 0).release, ?_⟩
    cases hs : e.session.boundaries with
    | nil =>
      rw [hs] at hlength
      cases hlength
    | cons first rest => simp [End.left, Session.release, Session.update, hs, Handle.boundary?,
        Handle.share, Executor.unload]

end Client

/-! ## Runs with effects of their own -/

namespace Executor

variable {α : Type} {executor : Executor} {request : LoadRequest}

/-- A run whose use of the module may have effects beyond the steps of the machine. -/
def runIn {M : Type → Type} [Monad M] [MonadLiftT (Except Stall) M] (executor : Executor)
    (request : LoadRequest) (use : Boundary → M (Boundary × α)) : M (Except LoadError (ScriptRun α)) := do
  match ← Boundary.load executor.fs executor.fuel executor.settings boundaryId scriptId request with
  | .error e => return .error e
  | .ok outcome =>
    if outcome.hasModule then
      let (boundary, value) ← use outcome.boundary
      return .ok ⟨unload boundary, .ok value, outcome.diagnostics⟩
    else
      return .ok ⟨unload outcome.boundary, .error (reasons outcome.diagnostics), outcome.diagnostics⟩

theorem runIn_eq_run (use : Boundary → Except Stall (Boundary × α)) :
    executor.runIn request use = executor.run request use := by
  unfold runIn run
  cases Boundary.load executor.fs executor.fuel executor.settings boundaryId scriptId request with
  | error stall => rfl
  | ok loaded =>
    cases loaded with
    | error e => rfl
    | ok outcome =>
      dsimp only
      change (if outcome.hasModule = true then _ else _) = _
      split
      · cases use outcome.boundary <;> rfl
      · rfl

/-- A use that counts its calls. -/
def counted (use : Boundary → Except Stall (Boundary × α)) (b : Boundary) :
    StateT Nat (Except Stall) (Boundary × α) :=
  fun calls => (use b).map fun used => (used, calls + 1)

/-- Counting changes nothing of a run, and comes to one call if there is a module. -/
theorem runIn_counted {outcome : LoadOutcome} (use : Boundary → Except Stall (Boundary × α))
    (hl : Boundary.load executor.fs executor.fuel executor.settings boundaryId scriptId request = .ok (.ok outcome)) :
    executor.runIn request (counted use) 0 =
      (executor.runIn request use).map fun result => (result, outcome.hasModule.toNat) := by
  unfold runIn
  rw [hl]
  change (if outcome.hasModule = true then _ else _ : StateT Nat (Except Stall) _) 0 =
    Except.map _ (if outcome.hasModule = true then _ else _)
  split
  · next hm =>
    rw [hm]
    change (counted use outcome.boundary 0).bind _ = _
    rw [counted]
    cases use outcome.boundary <;> rfl
  · next hm =>
    rw [Bool.eq_false_iff.mpr hm]
    rfl

/-- What a run is made of when it ends. -/
theorem run_ok {use : Boundary → Except Stall (Boundary × α)} {run : ScriptRun α}
    (h : executor.run request use = .ok (.ok run)) :
    ∃ outcome,
      Boundary.load executor.fs executor.fuel executor.settings boundaryId scriptId request =
        .ok (.ok outcome) ∧
      executor.runIn request (counted use) 0 = .ok (.ok run, outcome.hasModule.toNat) ∧
      ((outcome.hasModule = true ∧ ∃ b value, use outcome.boundary = .ok (b, value) ∧
          run = ⟨unload b, .ok value, outcome.diagnostics⟩) ∨
        outcome.hasModule = false ∧
          run = ⟨unload outcome.boundary, .error (reasons outcome.diagnostics), outcome.diagnostics⟩) := by
  have hrun := h
  unfold Executor.run at hrun
  split at hrun
  · cases hrun
  · cases hrun
  · next outcome hl =>
    refine ⟨outcome, hl, ?_, ?_⟩
    · rw [runIn_counted use hl, runIn_eq_run, h]
      rfl
    · split at hrun
      · next hm =>
        split at hrun
        · cases hrun
        · next b value hu =>
          cases hrun
          exact .inl ⟨hm, b, value, hu, rfl⟩
      · next hm =>
        cases hrun
        exact .inr ⟨Bool.eq_false_iff.mpr hm, rfl⟩

/-! ## The reasons of a refusal -/

/-- Why there is no module: the errors among all diagnostics, or all of them when they are warnings, which
were taken for errors then. -/
structure Explains (warningsAsErrors : Bool) (ds all : List Diagnostic) : Prop where
  nonempty : ds ≠ []
  sublist : ds.Sublist all
  errors : (∃ d ∈ all, d.isError = true) → ds = all.filter Diagnostic.isError
  warnings : (∀ d ∈ all, d.isError = false) → ds = all ∧ warningsAsErrors = true

theorem reasons_explain {warningsAsErrors : Bool} {outcome : LoadOutcome}
    (ha : outcome.Accords warningsAsErrors) (hm : outcome.hasModule = false) :
    Explains warningsAsErrors (reasons outcome.diagnostics) outcome.diagnostics := by
  have hnone : ¬ Diagnostic.Allow warningsAsErrors outcome.diagnostics := by
    rw [← ha.present, hm]
    exact Bool.false_ne_true
  unfold reasons
  dsimp only
  cases he : outcome.diagnostics.filter Diagnostic.isError with
  | nil =>
    have hwarnings : ∀ d ∈ outcome.diagnostics, d.isError = false := fun d hd =>
      Bool.eq_false_iff.mpr (List.filter_eq_nil_iff.mp he d hd)
    have hstrict : warningsAsErrors = true := by
      by_contra hw
      exact hnone ⟨hwarnings, fun h => absurd h hw⟩
    refine ⟨ha.explained hm, List.Sublist.refl _, fun ⟨d, hd, hb⟩ => ?_, fun _ => ⟨rfl, hstrict⟩⟩
    rw [hwarnings d hd] at hb
    cases hb
  | cons first rest =>
    have hmem : first ∈ outcome.diagnostics.filter Diagnostic.isError := he ▸ List.mem_cons_self
    obtain ⟨hfirst, herror⟩ := List.mem_filter.mp hmem
    have hsublist : (first :: rest).Sublist outcome.diagnostics := he ▸ List.filter_sublist
    refine ⟨List.cons_ne_nil _ _, hsublist, fun _ => he.symm, fun hw => ?_⟩
    rw [hw first hfirst] at herror
    cases herror

/-! ## What a run comes to -/

/-- When the boundary of a run is gone, given when what still holds it is dropped. -/
def goneAt (run : ScriptRun α) (droppedAt : Option Nat) : Option Nat :=
  if run.boundary.isLive then droppedAt else some 0

/-- What a report of a run says: what the run came to, and what its monitor found. -/
inductive Verdict (run : ScriptRun α) (wait : Wait) : Except ExecutorError (ScriptReport α) → Prop where
  | outcome {unload : UnloadOutcome} (h : wait.outcome = some unload) :
      Verdict run wait (.ok ⟨run.result, run.diagnostics, unload⟩)
  | cancelled (h : wait.outcome = none) :
      Verdict run wait (.error (.unload (.cancelled run.boundary.id.number wait.attempts)))

theorem awaitUntil_verdict (run : ScriptRun α) (droppedAt firesAt : Option Nat) :
    Verdict run (executor.settings.monitor.wait ⟨goneAt run droppedAt, firesAt⟩)
      (executor.awaitUntil run droppedAt firesAt) := by
  unfold awaitUntil
  dsimp only
  rw [← goneAt]
  split
  · next h => exact .cancelled h
  · next h => exact .outcome h

theorem unload_lifecycle (b : Boundary) : (unload b).lifecycle = .unloadRequested :=
  (b.requestUnload.ages_release .context).unloaded.mpr b.requestUnload_lifecycle

theorem unload_fired {b : Boundary} {n m : Nat} (h : (unload b).Tallied n m) : (unload b).fired = 1 := by
  rw [h.fired_eq, if_pos (Or.inl (unload_lifecycle b))]

/-- Whatever its client does, a run that ends has called it once when there was a module, and not at all
when there was none. It has the client's value then, or else the reasons why there is no module. The boundary
has been unloaded, and is live as long as something that the client kept holds it, then and later. A report of
the run says the same, with the verdict of the monitor. -/
theorem runs_unload_and_report (executor : Executor) (request : LoadRequest) (client : Client α)
    {run : ScriptRun (Client.End α)} (h : executor.run request (client.use executor) = .ok (.ok run)) :
    ∃ outcome,
      Boundary.load executor.fs executor.fuel executor.settings boundaryId scriptId request =
        .ok (.ok outcome) ∧
      run.diagnostics = outcome.diagnostics ∧
      executor.runIn request (counted (client.use executor)) 0 = .ok (.ok run, outcome.hasModule.toNat) ∧
      (outcome.hasModule = true →
        ∃ e, client.perform (Client.enter executor outcome.boundary) = .ok e ∧ run.result = .ok e) ∧
      (outcome.hasModule = false → ∃ ds, run.result = .error ds ∧
        Explains executor.settings.warningsAsErrors ds run.diagnostics) ∧
      run.boundary.lifecycle = .unloadRequested ∧ run.boundary.fired = 1 ∧
      (run.boundary.isLive = true ↔
        ∃ e, run.result = .ok e ∧ ∃ entry ∈ e.session.handles, entry.2.keeps 0 = true) ∧
      (∀ e, run.result = .ok e → e.left.boundaries[0]? = some run.boundary ∧
        ∀ more t, e.left.run more = .ok t →
          (t.isLive 0 = true ↔ ∃ entry ∈ t.handles, entry.2.keeps 0 = true)) ∧
      ∀ firesAt,
        executor.runAndUnload request firesAt (client.use executor) =
          .ok (executor.awaitUntil run none firesAt) ∧
        ∀ droppedAt, Verdict run (executor.settings.monitor.wait ⟨goneAt run droppedAt, firesAt⟩)
          (executor.awaitUntil run droppedAt firesAt) := by
  have hreport : ∀ firesAt, executor.runAndUnload request firesAt (client.use executor) =
      .ok (executor.awaitUntil run none firesAt) := by
    intro firesAt
    unfold runAndUnload
    rw [h]
    rfl
  obtain ⟨outcome, hl, hcalls, hcases⟩ := run_ok h
  have htallied := Boundary.load_tallied hl
  rcases hcases with ⟨hm, b, e, hu, rfl⟩ | ⟨hm, rfl⟩
  · rw [if_pos hm] at htallied
    obtain ⟨hperformed, hk, hb⟩ := Client.use_left htallied hm hu
    refine ⟨outcome, hl, rfl, hcalls, fun _ => ⟨e, hperformed, rfl⟩, ?_, unload_lifecycle b,
      unload_fired (hk.accounted.tallied 0 _ hb), ?_, ?_,
      fun firesAt => ⟨hreport firesAt, fun droppedAt => awaitUntil_verdict _ droppedAt firesAt⟩⟩
    · rw [hm]
      rintro ⟨⟩
    · have hlive := hk.isLive_iff 0
      rw [Session.isLive, hb, Option.any_some, e.left_handles] at hlive
      refine hlive.trans ⟨fun hkept => ⟨e, rfl, hkept⟩, ?_⟩
      rintro ⟨_, ⟨⟩, hkept⟩
      exact hkept
    · intro _ he
      cases he
      exact ⟨hb, fun more t ht => (hk.run ht).isLive_iff 0⟩
  · rw [if_neg (Bool.eq_false_iff.mp hm)] at htallied
    obtain ⟨-, manifest, a, -, ha, hmade⟩ := Boundary.load_attempted hl
    have haccords : outcome.Accords executor.settings.warningsAsErrors := by
      rw [hmade]
      exact Boundary.made_accords _ _ _ ha
    have hgone : (unload outcome.boundary).Tallied 0 0 := htallied.requestUnload.release_context
    refine ⟨outcome, hl, rfl, hcalls, ?_, fun _ => ⟨_, rfl, reasons_explain haccords hm⟩,
      unload_lifecycle _, unload_fired hgone, ?_, ?_,
      fun firesAt => ⟨hreport firesAt, fun droppedAt => awaitUntil_verdict _ droppedAt firesAt⟩⟩
    · rw [hm]
      rintro ⟨⟩
    · refine ⟨fun hlive => by simpa using hgone.isLive_iff.mp hlive, ?_⟩
      rintro ⟨_, he, -⟩
      cases he
    · intro _ he
      cases he

/-- A client that keeps the compiled script and nothing else. -/
def keepScript : Client Unit :=
  .act (.compiled "module" "script") fun _ => .act (.drop "module") fun _ => .done ()

theorem kept_script_outlives_run :
    ∃ (run : ScriptRun (Client.End Unit)) (e : Client.End Unit) (t : Session),
      run.result = .ok e ∧ (∃ entry ∈ e.session.handles, entry.2.keeps 0 = true) ∧
      run.boundary.isLive = true ∧ run.boundary.fired = 1 ∧
      e.left.run [.drop "script"] = .ok t ∧ ¬ ∃ entry ∈ t.handles, entry.2.keeps 0 = true := by
  have hrun : ∃ run e t,
      Executor.run ⟨Session.bareFiles, 1000, .standard⟩ ⟨⟨"/base"⟩, "(component)", []⟩
          (keepScript.use ⟨Session.bareFiles, 1000, .standard⟩) = .ok (.ok run) ∧
        run.result = .ok e ∧ run.boundary.isLive = true ∧ e.left.run [.drop "script"] = .ok t ∧
          t.isLive 0 = false :=
    ⟨_, _, _, rfl, rfl, rfl, rfl, rfl⟩
  obtain ⟨run, e, t, h, he, hlive, ht, hgone⟩ := hrun
  obtain ⟨_, -, -, -, -, -, -, hfired, hkept, hlater, -⟩ :=
    runs_unload_and_report ⟨Session.bareFiles, 1000, .standard⟩ ⟨⟨"/base"⟩, "(component)", []⟩ keepScript h
  obtain ⟨e', he', hheld⟩ := hkept.mp hlive
  cases he.symm.trans he'
  refine ⟨run, e, t, he, hheld, hlive, hfired, ht, ?_⟩
  rw [← (hlater e he).2 _ t ht, hgone]
  exact Bool.false_ne_true

end Executor

end ComponentHost
