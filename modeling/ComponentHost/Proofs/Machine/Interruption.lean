import ComponentHost.Proofs.Machine.Custody
import ComponentHost.Proofs.Machine.Waits

/-! # What is interrupted

A store comes to no interruption by itself: the machine interrupts a thread that runs code, and only where the store
has a token that has fired. So code is interrupted as long as the call that it runs for is in the function that it
calls; code that clears up behind a call is not. The calls around the innermost one wait for its answer, which no
call does that clears up. -/
set_option autoImplicit false

namespace ComponentHost

/-! ## Stores interrupt nothing -/

/-- Whether a step traps as if it were interrupted. -/
def Progress.isInterruption : Progress → Bool
  | .trap _ .interrupted => true
  | _ => false

namespace Store

theorem trap_uninterrupted {left : Store} {trap : Trap} (h : trap.isOwn = true) :
    (Progress.trap left trap).isInterruption = false := by
  cases trap <;> first | rfl | cases h

theorem invoke_uninterrupted (store : Store) (address : Nat) (args : List UInt32) (waits : List Pending)
    (depth : Nat) : (store.invoke address args waits depth).isInterruption = false := by
  unfold invoke
  split
  · rfl
  · split <;> rfl
  · next type memory _ _ =>
    have hreads : Trap.Reads (Value.HaveTypes · type.params) (Value.ofArguments (store.memory? memory) type args) :=
      Value.ofArguments_reads type args
    split
    · rfl
    · split
      · next hv =>
        rw [hv] at hreads
        exact trap_uninterrupted hreads
      · split <;> rfl

theorem execute_uninterrupted (store : Store) (frame : Frame) (waits : List Pending) (depth : Nat) :
    (store.execute frame waits depth).isInterruption = false := by
  unfold execute
  dsimp only
  split
  · split <;> rfl
  · split
    case h_2 =>
      split
      · rfl
      · next applied => exact trap_uninterrupted (apply_error applied)
    case h_8 =>
      split
      · rfl
      · exact invoke_uninterrupted store _ _ _ _
    all_goals (repeat' split) <;> rfl

theorem place_uninterrupted (store : Store) (p : Placement) (words : List UInt32) (waits : List Pending)
    (depth : Nat) : (store.place p words waits depth).isInterruption = false := by
  have h := store.place_placed p words waits depth
  generalize store.place p words waits depth = progress at h ⊢
  cases h with
  | hands | goes => rfl
  | asks => exact invoke_uninterrupted store _ _ _ _
  | @fails trap h =>
    rcases h with ho | ⟨hm, -⟩
    · exact trap_uninterrupted ho
    · cases trap <;> first | rfl | cases hm

theorem callBody_uninterrupted (store : Store) (lift : Component.Lift) (words : List UInt32) (depth : Nat) :
    (store.callBody lift words depth).isInterruption = false := by
  unfold callBody
  split
  · rfl
  · exact invoke_uninterrupted store _ _ _ _

theorem receive_uninterrupted (store : Store) (interface function : String) (args : List Value) (results : Nat)
    (token : Option Token) : (store.receive interface function args results token).isInterruption = false := by
  unfold receive enter
  dsimp only
  (repeat' split) <;> rfl

theorem leave_uninterrupted (store : Store) (lift : Component.Lift) (words : List UInt32) :
    (store.leave lift words).isInterruption = false := by
  have hreads := store.readResults_reads lift words
  unfold leave
  split
  · next hr =>
    rw [hr] at hreads
    exact trap_uninterrupted hreads
  · dsimp only
    (repeat' split) <;> first | exact invoke_uninterrupted _ _ _ _ _ | rfl

theorem acceptReply_uninterrupted (store : Store) (type : Component.Signature) (memory realloc : Option Nat)
    (area : Option UInt32) (values : List Value) (waits : List Pending) (depth : Nat) :
    (store.acceptReply type memory realloc area values waits depth).isInterruption = false := by
  have hreads := store.resultTarget_reads type memory area
  unfold acceptReply
  split
  · next ha =>
    rw [ha] at hreads
    exact trap_uninterrupted hreads
  · rfl

/-- Whatever a thread does that is not the making of an instance, it is not interrupted by its store. -/
theorem advance_uninterrupted (store : Store) {thread : Thread} (h : thread.activity.isBuild = false) :
    (store.advance thread).isInterruption = false := by
  obtain ⟨activity, waits, depth⟩ := thread
  unfold advance
  cases activity with
  | build steps => cases h
  | run frame => exact store.execute_uninterrupted frame waits depth
  | values values =>
    cases waits with
    | nil => rfl
    | cons pending waits =>
      cases pending with
      | reply type memory realloc area => exact store.acceptReply_uninterrupted _ _ _ _ _ _ _
      | _ => rfl
  | words words =>
    cases waits with
    | nil => rfl
    | cons pending waits =>
      cases pending with
      | body lift => exact store.leave_uninterrupted lift words
      | placing p => exact store.place_uninterrupted p words waits depth
      | enter lift => exact store.callBody_uninterrupted lift words depth
      | frame | build | reply | cleanup => rfl

end Store

/-! ## Calls that wait -/

/-- A thread waits for the answer of a function of another component. -/
def Thread.IsWaiting (thread : Thread) : Prop :=
  ∃ type memory realloc area waits, thread.waits = .reply type memory realloc area :: waits

theorem Store.advance_isWaiting {store left : Store} {thread waiting : Thread} {interface function : String}
    {args : List Value} {results : Nat}
    (h : store.advance thread = .call left waiting interface function args results) : waiting.IsWaiting := by
  have hclosed : Pending.Closed fun _ _ => True := by constructor <;> intros <;> trivial
  have hthread : thread.Within fun _ _ => True := ⟨Pending.all_true _, fun _ _ => trivial⟩
  have hwithin := advance_within hclosed store hthread fun _ _ _ _ _ _ _ _ _ => trivial
  rw [h] at hwithin
  obtain ⟨-, -, type, -, -, -, hawaits, -⟩ := hwithin
  obtain ⟨memory, realloc, area, waits, hwaits⟩ := hawaits.reply
  exact ⟨type, memory, realloc, area, waits, hwaits⟩

/-- A call that clears up calls no other component, so what waits for another one is still in its function. -/
theorem Store.Serves.isCalling {types : List Component.ValType} {token : Option Token} {store : Store}
    {thread : Thread} (h : store.Serves types token thread.waits) (hw : thread.IsWaiting) :
    thread.isCalling = true := by
  cases h with
  | calling hb hwaits => exact hwaits.isCalling hb
  | clearing _ hwaits =>
    obtain ⟨type, memory, realloc, area, waits, he⟩ := hw
    rw [he] at hwaits
    cases hwaits with
    | reply _ _ _ _ hc => cases hc

/-- All calls but the innermost one wait. -/
def Machine.WaitsOutside (m : Machine) : Prop := ∀ call ∈ m.calls.tail, call.thread.IsWaiting

def Next.WaitsOutside : Next → Prop
  | .more m => m.WaitsOutside
  | .done _ _ | .failed _ _ | .blocked _ => True

namespace Machine

variable {m m' : Machine} {site : Nat} {thread : Thread} {outer : List Call} {types : List Component.ValType}
  {token : Token}

theorem begin_waitsOutside {start : Store → Progress}
    (hstart : ∀ store, (start store).store.wiring = store.wiring) (h : ∀ call ∈ m.calls, call.thread.IsWaiting) :
    (m.begin site start).WaitsOutside := by
  obtain ⟨-, hmore, -⟩ := m.begin_cases site start hstart
  cases hb : m.begin site start with
  | more first =>
    obtain ⟨-, thread, hcalls⟩ := hmore first hb
    intro call hc
    rw [hcalls] at hc
    exact h call hc
  | done | failed | blocked => trivial

theorem step_waitsOutside (h : m.WaitsOutside) : m.step.WaitsOutside := by
  have hstep := m.step_stepped
  generalize m.step = next at hstep ⊢
  have houter : ∀ {site : Nat} {thread : Thread} {outer : List Call}, m.calls = ⟨site, thread⟩ :: outer →
      ∀ call ∈ outer, call.thread.IsWaiting := by
    intro site thread outer hm call hc
    refine h call ?_
    rw [hm]
    exact hc
  cases hstep with
  | rests | stops => trivial
  | goes hm => exact houter hm
  | @finishes _ _ outer _ _ hm =>
    unfold reply
    split
    · trivial
    · next back rest hcalls =>
      have hback : outer = _ := hcalls
      exact fun call hc => houter hm call (hback ▸ List.mem_cons_of_mem _ hc)
  | asks hm _ ha =>
    unfold forward
    split
    · trivial
    · refine begin_waitsOutside (fun _ => receive_wiring _ _ _ _ _ _) fun call hc => ?_
      rcases List.mem_cons.mp hc with rfl | hc
      · exact Store.advance_isWaiting ha
      · exact houter hm call hc

/-- Around the innermost call of a run that a call with a token starts, all calls are still in the function that
they call, and their stores have the token. -/
theorem Serves.outer_calling (h : m.Serves types (some token)) (hw : m.WaitsOutside)
    (hm : m.calls = ⟨site, thread⟩ :: outer) :
    ∀ call ∈ outer, call.thread.isCalling = true ∧ (m.store call.site).token = some token := by
  intro call hc
  have hmem : call ∈ m.calls := hm ▸ List.mem_cons_of_mem _ hc
  obtain ⟨inner, hserves, -⟩ := h.calls.mem hmem
  have hcalling : call.thread.isCalling = true := by
    refine hserves.isCalling (hw call ?_)
    rw [hm]
    exact hc
  refine ⟨hcalling, ?_⟩
  rw [hserves.token_eq, if_pos hcalling]

/-! ## Steps that interrupt -/

theorem begin_uninterrupted {start : Store → Progress} (hstart : ∀ store, (start store).isInterruption = false)
    (m' : Machine) :
    m.begin site start ≠ .failed m' .interrupted := by
  rw [begin_eq]
  cases hp : start (m.store site) with
  | go => exact nofun
  | call | finish =>
    intro h
    cases h
  | trap left trap =>
    have hno := hstart (m.store site)
    rw [hp] at hno
    rintro ⟨⟩
    cases hno

/-- A step is not taken for an interruption that is none. -/
theorem step_uninterrupted (hm : m.calls = ⟨site, thread⟩ :: outer) (hb : thread.activity.isBuild = false)
    (hi : isInterrupted m.signals.tick (m.store site) thread = false) (m' : Machine) :
    m.step ≠ .failed m' .interrupted := by
  have hadvance := (m.store site).advance_uninterrupted hb
  rw [step_cons hm]
  dsimp only
  rw [if_neg (Bool.eq_false_iff.mp hi)]
  cases ha : (m.store site).advance thread with
  | go => exact nofun
  | trap left trap =>
    rw [ha] at hadvance
    rintro ⟨⟩
    cases hadvance
  | finish left values =>
    dsimp only
    unfold reply
    split <;> exact nofun
  | call left waiting interface function args results =>
    dsimp only
    split
    · intro h
      cases h
    · unfold forward
      split
      · exact nofun
      · exact begin_uninterrupted (fun store => store.receive_uninterrupted _ _ _ _ _) m'

/-- A step interrupts just where code runs for a call that is still in the function that it calls, and whose token
has fired. -/
theorem Serves.interrupted_iff (h : m.Serves types (some token)) (ho : m.Ordered)
    (hm : m.calls = ⟨site, thread⟩ :: outer) :
    (∃ m', m.step = .failed m' .interrupted) ↔
      (∃ frame, thread.activity = .run frame) ∧ thread.isCalling = true ∧ m.signals.tick.hasFired token = true := by
  obtain ⟨inner, hinner⟩ := h.innermost ho hm
  obtain ⟨hserves, hbuild⟩ := hinner.call
  have hinterrupted : isInterrupted m.signals.tick (m.store site) thread = true ↔
      (∃ frame, thread.activity = .run frame) ∧ thread.isCalling = true ∧
        m.signals.tick.hasFired token = true := by
    have htoken : (m.store site).token = if thread.isCalling then some token else none := hserves.token_eq
    unfold isInterrupted
    rw [htoken]
    cases thread.activity <;> cases thread.isCalling <;> simp
  rw [← hinterrupted]
  constructor
  · rintro ⟨m', hstep⟩
    by_contra hi
    exact step_uninterrupted hm hbuild (Bool.eq_false_iff.mpr hi) m' hstep
  · intro hi
    rw [step_cons hm]
    dsimp only
    rw [if_pos hi]
    exact ⟨_, rfl⟩

end Machine

end ComponentHost
