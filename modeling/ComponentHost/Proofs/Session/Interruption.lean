import ComponentHost.Proofs.Machine.Forward
import ComponentHost.Proofs.Machine.Interruption
import ComponentHost.Proofs.Session.Alone
import ComponentHost.Proofs.Session.Cancellation

/-! # What a token interrupts in a session

Once the token of a call has fired, the next step of code that runs for the call is interrupted, however deep it
runs, as long as it runs for a function that has not returned. What clears up behind such a function has no token
and runs to its end. -/
set_option autoImplicit false

namespace ComponentHost

namespace Machine

variable {m : Machine} {providers : Array Store} {store : Store} {signals : Signals} {interface function : String}
  {args : List Value} {results : Nat} {token : Token}

theorem calling_waitsOutside {token : Option Token}
    (h : (calling providers store signals interface function args results token).Passes m) : m.WaitsOutside :=
  h.induction (P := Next.WaitsOutside) (fun _ _ hm => step_waitsOutside hm)
    (begin_waitsOutside (fun _ => receive_wiring _ _ _ _ _ _) fun _ hc => absurd hc List.not_mem_nil)

end Machine

namespace Session

variable {s : Session} {token : Token}

/-- While an instance is called with a token, the calls around the innermost one are in the functions that they
call, and their stores have the token. The innermost one is in its function too, and its store has the token, or it
clears up behind the function, and its store has none. So a step interrupts it just where code of the function
runs, and the token has fired. -/
theorem interrupted_iff_calling {fs : FileSystem} {fuel : Nat} {ops : List SessionStep}
    (h : (start fs fuel).run ops = .ok s) {start : Next} (hc : s.Calls (some token) start) {m : Machine}
    (hm : start.Passes m) {site : Nat} {thread : Thread} {outer : List Call}
    (hcalls : m.calls = ⟨site, thread⟩ :: outer) :
    (∀ call ∈ outer, call.thread.isCalling = true ∧ (m.store call.site).token = some token) ∧
      (thread.isCalling = true ∧ (m.store site).token = some token ∨
        (∃ values, thread.waits.getLast? = some (.cleanup values)) ∧ thread.isCalling = false ∧
          (m.store site).token = none) ∧
      ((∃ m', m.step = .failed m' .interrupted) ↔
        (∃ frame, thread.activity = .run frame) ∧ thread.isCalling = true ∧ m.signals.tick.hasFired token = true) := by
  have hs := upholds_of_run Law.custody_stable h
  obtain ⟨hof, hb, hc, argument, signals⟩ := hc
  obtain ⟨horder, hbears⟩ := hs.boundaries _ _ hb
  obtain ⟨hlinks, htoken⟩ := hs.handles _ (mem_of_handle? hof) _ _ rfl hb
  have hproviders := fun p hp => Store.bears_nothing.mp (hbears _ hc p hp)
  obtain ⟨types, hr⟩ := Store.exists_receive_serves _ _ _ [.string argument] 1 (some token)
  have hserves : Next.Serves types (some token) (.more m) :=
    hm.induction (fun m hm => Machine.calling_step (horder _ hc).providers (hlinks _ hc) hm)
      (Machine.calling_serves hproviders htoken hr)
  have hserves : m.Serves types (some token) := hserves
  have hordered : m.Ordered :=
    (Machine.begin_passes (horder _ hc).providers (hlinks _ hc) (fun _ => Machine.receive_wiring _ _ _ _ _ _) hm).1
  obtain ⟨inner, hinner, -⟩ := hserves.calls.mem (hcalls ▸ List.mem_cons_self)
  refine ⟨hserves.outer_calling (Machine.calling_waitsOutside hm) hcalls, ?_, hserves.interrupted_iff hordered hcalls⟩
  cases hinner with
  | calling hreturns hwaits htoken => exact .inl ⟨hwaits.isCalling hreturns, htoken⟩
  | clearing _ hwaits htoken => exact .inr ⟨⟨_, hwaits.getLast?⟩, hwaits.not_isCalling, htoken⟩

/-! ## A call that is interrupted -/

/-- The machine after so many steps of a run, if it is in code, and whether the call is in its function that the
code runs for. -/
def codeAfter? (start : Next) (n : Nat) : Option (Machine × Bool) :=
  match start.after n with
  | .more m =>
    match m.calls with
    | [⟨_, ⟨.run frame, waits, depth⟩⟩] => some (m, Thread.isCalling ⟨.run frame, waits, depth⟩)
    | _ => none
  | _ => none

theorem of_codeAfter? {start : Next} {n : Nat} {m : Machine} {isCalling : Bool}
    (h : codeAfter? start n = some (m, isCalling)) :
    start.Passes m ∧ ∃ site thread, m.calls = [⟨site, thread⟩] ∧ (∃ frame, thread.activity = .run frame) ∧
      thread.isCalling = isCalling := by
  unfold codeAfter? at h
  split at h
  · next hn =>
    split at h
    · next hcalls =>
      cases h
      exact ⟨Next.passes_of_after hn, _, _, hcalls, ⟨_, rfl⟩, rfl⟩
    · cases h
  · cases h

/-- The text that a run has returned after so many steps. -/
def textAfter? (start : Next) (n : Nat) : Option String :=
  match start.after n with
  | .done _ [.string text] => some text
  | _ => none

theorem of_textAfter? {start : Next} {n : Nat} {text : String} (h : textAfter? start n = some text) :
    ∃ left, start.after n = .done left [.string text] := by
  unfold textAfter? at h
  split at h
  · next hn =>
    cases h
    exact ⟨_, hn⟩
  · cases h

/-- The instance is called with the token, which is to fire while the function runs or after it has returned. -/
theorem exists_code_once :
    ∃ s, (Session.start bareFiles 1000).run (loadOnce ++ makeOnce) = .ok s ∧
      (∃ start ∈ s.callOf? "i" (some ⟨0⟩) ⟨[], some (9, ⟨0⟩)⟩, ∃ code ∈ codeAfter? start 9,
        code.2 = true ∧ code.1.signals.tick.hasFired ⟨0⟩ = true) ∧
      ∃ start ∈ s.callOf? "i" (some ⟨0⟩) ⟨[], some (17, ⟨0⟩)⟩, ∃ code ∈ codeAfter? start 18,
        code.2 = false ∧ code.1.signals.hasFired ⟨0⟩ = true ∧ textAfter? code.1.step 3 = some "" :=
  exists_once <| by
    rw [onceText, String.toList_ofList]
    decide +kernel

/-- The token fires while the function of the script runs. -/
theorem interrupted_in_function :
    ∃ (s : Session) (start : Next) (m m' : Machine), (Session.start bareFiles 1000).run (loadOnce ++ makeOnce) = .ok s ∧
      s.Calls (some ⟨0⟩) start ∧ start.Passes m ∧ m.step = .failed m' .interrupted := by
  obtain ⟨s, hrun, ⟨start, hstart, ⟨m, isCalling⟩, hm, hcalling, hfired⟩, -⟩ := exists_code_once
  obtain ⟨hpasses, site, thread, hcalls, hrunning, hthread⟩ := of_codeAfter? hm
  have hc := calls_of_callOf? hstart
  obtain ⟨-, -, hinterrupts⟩ := interrupted_iff_calling hrun hc hpasses hcalls
  obtain ⟨m', hstep⟩ := hinterrupts.mpr ⟨hrunning, hthread.trans hcalling, hfired⟩
  exact ⟨s, start, m, m', hrun, hc, hpasses, hstep⟩

/-- The token fires while the script clears up behind its function: the store has no token then, and the call goes
on to its end and returns. -/
theorem cleanup_not_interrupted :
    ∃ (s : Session) (start : Next) (m left : Machine) (site : Nat) (thread : Thread),
      (Session.start bareFiles 1000).run (loadOnce ++ makeOnce) = .ok s ∧ s.Calls (some ⟨0⟩) start ∧ start.Passes m ∧
      m.calls = [⟨site, thread⟩] ∧ (∃ frame, thread.activity = .run frame) ∧ m.signals.hasFired ⟨0⟩ = true ∧
      (m.store site).token = none ∧ m.step.after 3 = .done left [.string ""] := by
  obtain ⟨s, hrun, -, start, hstart, ⟨m, isCalling⟩, hm, hcalling, hfired, htext⟩ := exists_code_once
  obtain ⟨hpasses, site, thread, hcalls, hrunning, hthread⟩ := of_codeAfter? hm
  have hc := calls_of_callOf? hstart
  obtain ⟨left, hleft⟩ := of_textAfter? htext
  have hcarries := (hc.carries (upholds_of_run Law.custody_stable hrun) hpasses).others site fun call hmem _ => ?_
  · exact ⟨s, start, m, left, site, thread, hrun, hc, hpasses, hcalls, hrunning, hfired, hcarries, hleft⟩
  · rw [hcalls] at hmem
    rw [List.mem_singleton.mp hmem]
    exact hthread.trans hcalling

end Session

end ComponentHost
