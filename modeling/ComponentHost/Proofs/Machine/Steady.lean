import ComponentHost.Proofs.Machine.Serving

/-! # Calls that go on behind a door

A call that is in a store keeps the store as open as it is until the call is over, when the door is opened
again. It adds no function to the store, and refuses nobody: only who comes to the door is refused. Nor does
it find anything of a wrong type, where what is handed over has the types that it is expected to have. -/
set_option autoImplicit false

namespace ComponentHost

/-! ## Refusals -/

def Progress.isRefusal : Progress → Bool
  | .trap _ reason => reason.isRefusal
  | .go _ _ | .call _ _ _ _ _ _ | .finish _ _ => false

def Progress.isForeign : Progress → Bool
  | .trap _ reason => reason.isForeign
  | .go _ _ | .call _ _ _ _ _ _ | .finish _ _ => false

theorem Progress.isRefusal_of_own {p : Progress} (h : p.isForeign = false) : p.isRefusal = false := by
  cases p with
  | trap left reason => exact Trap.isRefusal_of_own h
  | go | call | finish => rfl

/-- The values that a thread goes on placing, if any, are values of their types. -/
def Thread.Fits : Thread → Prop
  | ⟨.words _, .placing p :: _, _⟩ => p.Fits
  | _ => True

/-- A step that does not end its thread leaves the functions of a store as they are, and the store as open
as it is. Nothing is refused in it, and only something strange is of a wrong type. -/
structure Progress.Stays (store : Store) (strange : Prop) (p : Progress) : Prop where
  enterable : p.store.enterable = store.enterable
  functions : p.store.functions = store.functions
  unfinished : ∀ left values, p ≠ .finish left values
  admitted : p.isRefusal = false
  typed : p.isForeign = true → strange

namespace Progress.Stays

variable {store : Store} {strange : Prop} {p : Progress}

/-- A step that only traps for reasons of the component's own. -/
theorem own (he : p.store.enterable = store.enterable) (hf : p.store.functions = store.functions)
    (hu : ∀ left values, p ≠ .finish left values) (ho : p.isForeign = false) : p.Stays store strange :=
  ⟨he, hf, hu, Progress.isRefusal_of_own ho, fun h => Bool.noConfusion (ho.symm.trans h)⟩

theorem of_eq {store' : Store} (h : p.Stays store' strange) (he : store'.enterable = store.enterable)
    (hf : store'.functions = store.functions) : p.Stays store strange :=
  ⟨h.enterable.trans he, h.functions.trans hf, h.unfinished, h.admitted, h.typed⟩

end Progress.Stays

namespace Store

variable {store store' : Store} {strange : Prop}

/-! ## What threads do to the store that they are in -/

theorem Refills.enterable_eq (h : store.Refills store') : store'.enterable = store.enterable := by
  obtain ⟨⟨memories, rfl⟩, -⟩ := h
  rfl

theorem Refills.functions_eq (h : store.Refills store') : store'.functions = store.functions := by
  obtain ⟨⟨memories, rfl⟩, -⟩ := h
  rfl

theorem Refills.stays {p : Progress} (h : store.Refills store')
    (hp : p.Stays store' strange) : p.Stays store strange :=
  hp.of_eq h.enterable_eq h.functions_eq

theorem load_error {memory : Option Nat} {kind : Core.Load} {address : Nat} {trap : Trap}
    (h : store.load memory kind address = .error trap) : trap.isOwn = true := by
  unfold load at h
  split at h
  · cases h
    rfl
  · split at h <;> cases h
    rfl

theorem apply_error {memory : Option Nat} {op : Core.Simple} {operands : List UInt32} {trap : Trap}
    (h : store.apply memory op operands = (store', .error trap)) : trap.isOwn = true := by
  have hstuck : ∀ {left : Store}, (left, Except.error Trap.stuck) = (store', Except.error (α := List UInt32) trap) →
      trap.isOwn = true := by
    rintro left ⟨⟩
    rfl
  unfold apply at h
  cases op with
  | binary op =>
    rcases operands with _ | ⟨b, _ | ⟨a, rest⟩⟩
    · exact hstuck h
    · exact hstuck h
    · dsimp only at h
      split at h <;> cases h
      rfl
  | load kind offset =>
    rcases operands with _ | ⟨a, rest⟩
    · exact hstuck h
    · have hload := congrArg Prod.snd h
      dsimp only at hload
      cases hl : store.load memory kind (a.toNat + offset) with
      | ok w =>
        rw [hl] at hload
        cases hload
      | error trap' =>
        rw [hl] at hload
        cases hload
        exact load_error hl
  | store kind offset =>
    rcases operands with _ | ⟨w, _ | ⟨a, rest⟩⟩
    · exact hstuck h
    · exact hstuck h
    · dsimp only at h
      split at h <;> cases h
      rfl
  | memoryGrow =>
    rcases operands with _ | ⟨more, rest⟩
    · exact hstuck h
    · dsimp only at h
      split at h <;> cases h
  | memoryCopy | memoryFill =>
    rcases operands with _ | ⟨n, _ | ⟨w, _ | ⟨target, rest⟩⟩⟩
    · exact hstuck h
    · exact hstuck h
    · exact hstuck h
    · dsimp only at h
      split at h <;> cases h
      rfl
  | _ =>
    rcases operands with _ | ⟨c, _ | ⟨b, _ | ⟨a, rest⟩⟩⟩ <;>
      first
      | cases h
        rfl
      | cases h

theorem resultTarget_reads (store : Store) (type : Component.Signature) (memory : Option Nat) (area : Option UInt32) :
    Trap.Reads (fun _ => True) (store.resultTarget type memory area) := by
  unfold resultTarget
  split
  · trivial
  · split
    · exact (Value.area_reads _ _ rfl rfl _).map
    · rfl

theorem invoke_stays (store : Store) (address : Nat) (args : List UInt32) (waits : List Pending)
    (depth : Nat) : (store.invoke address args waits depth).Stays store strange := by
  unfold invoke
  split
  · exact .own rfl rfl (fun _ _ => nofun) rfl
  · split <;> exact .own rfl rfl (fun _ _ => nofun) rfl
  · next type memory _ _ =>
    have hreads : Trap.Reads (Value.HaveTypes · type.params) (Value.ofArguments (store.memory? memory) type args) :=
      Value.ofArguments_reads type args
    (repeat' split) <;> first
      | exact .own rfl rfl (fun _ _ => nofun) rfl
      | next hv =>
        rw [hv] at hreads
        exact .own rfl rfl (fun _ _ => nofun) (Trap.isForeign_of_isOwn hreads)

theorem execute_stays (store : Store) (frame : Frame) (waits : List Pending) (depth : Nat) :
    (store.execute frame waits depth).Stays store strange := by
  unfold execute
  dsimp only
  split
  · split <;> exact .own rfl rfl (fun _ _ => nofun) rfl
  · split
    case h_2 op _ _ =>
      have hm := apply_refills store (store.firstMemory? frame.owner) op frame.operands
      split
      · next applied =>
        rw [applied] at hm
        exact hm.stays (.own rfl rfl (fun _ _ => nofun) rfl)
      · next applied =>
        rw [applied] at hm
        exact hm.stays (.own rfl rfl (fun _ _ => nofun) (Trap.isForeign_of_isOwn (apply_error applied)))
    case h_8 =>
      split
      · exact .own rfl rfl (fun _ _ => nofun) rfl
      · exact invoke_stays store _ _ _ _
    all_goals (repeat' split) <;> exact .own rfl rfl (fun _ _ => nofun) rfl

theorem place_stays (store : Store) (p : Placement) (words : List UInt32) (waits : List Pending) (depth : Nat) :
    (store.place p words waits depth).Stays store (¬ p.Fits) := by
  have h := store.place_placed p words waits depth
  generalize store.place p words waits depth = progress at h ⊢
  cases h with
  | hands => exact .own rfl rfl (fun _ _ => nofun) rfl
  | goes hs => exact hs.stays (.own rfl rfl (fun _ _ => nofun) rfl)
  | asks => exact invoke_stays store _ _ _ _
  | fails h =>
    rcases h with ho | ⟨hm, hf⟩
    · exact .own rfl rfl (fun _ _ => nofun) (Trap.isForeign_of_isOwn ho)
    · exact ⟨rfl, rfl, fun _ _ => nofun, Trap.isRefusal_of_isMisfit hm, fun _ => hf⟩

theorem callBody_stays (store : Store) (lift : Component.Lift) (words : List UInt32) (depth : Nat) :
    (store.callBody lift words depth).Stays store strange := by
  unfold callBody
  split
  · exact .own rfl rfl (fun _ _ => nofun) rfl
  · exact invoke_stays store _ _ _ _

theorem acceptReply_stays (store : Store) (type : Component.Signature) (memory realloc : Option Nat)
    (area : Option UInt32) (values : List Value) (waits : List Pending) (depth : Nat) :
    (store.acceptReply type memory realloc area values waits depth).Stays store strange := by
  have hreads := store.resultTarget_reads type memory area
  unfold acceptReply
  split
  · next ha =>
    rw [ha] at hreads
    exact .own rfl rfl (fun _ _ => nofun) (Trap.isForeign_of_isOwn hreads)
  · exact .own rfl rfl (fun _ _ => nofun) rfl

/-- A step of a call in a store: the call goes on behind a door that stays as it is, or it is over and the door
is open. -/
inductive Leaving (store : Store) (strange : Prop) : Progress → Prop where
  | stays {p : Progress} (h : p.Stays store strange) : Leaving store strange p
  | ends {left : Store} {values : List Value} (he : left.enterable = true)
      (hf : left.functions = store.functions) : Leaving store strange (.finish left values)

theorem leave_leaving (store : Store) (lift : Component.Lift) (words : List UInt32) :
    store.Leaving strange (store.leave lift words) := by
  have hreads := store.readResults_reads lift words
  unfold leave
  split
  · next hr =>
    rw [hr] at hreads
    exact .stays (.own rfl rfl (fun _ _ => nofun) (Trap.isForeign_of_isOwn hreads))
  · dsimp only
    split
    · exact .ends rfl rfl
    · split
      · exact .stays (.own rfl rfl (fun _ _ => nofun) rfl)
      · exact .stays (.of_eq (invoke_stays _ _ _ _ _) rfl rfl)

theorem advance_leaving (store : Store) {thread : Thread} (h : thread.activity.isBuild = false) :
    store.Leaving (¬ thread.Fits) (store.advance thread) := by
  obtain ⟨activity, waits, depth⟩ := thread
  unfold advance
  cases activity with
  | build steps => cases h
  | run frame => exact .stays (execute_stays store frame waits depth)
  | values values =>
    cases waits with
    | nil => exact .stays (.own rfl rfl (fun _ _ => nofun) rfl)
    | cons pending waits =>
      cases pending with
      | reply type memory realloc area => exact .stays (acceptReply_stays store _ _ _ _ _ _ _)
      | _ => exact .stays (.own rfl rfl (fun _ _ => nofun) rfl)
  | words words =>
    cases waits with
    | nil => exact .stays (.own rfl rfl (fun _ _ => nofun) rfl)
    | cons pending waits =>
      cases pending with
      | body lift => exact leave_leaving store lift words
      | cleanup values => exact .ends rfl rfl
      | placing p => exact .stays (place_stays store p words waits depth)
      | enter lift => exact .stays (callBody_stays store lift words depth)
      | frame | build | reply => exact .stays (.own rfl rfl (fun _ _ => nofun) rfl)

/-! ## Making the instance -/

theorem makeMemories_eq (store : Store) (memories : List Core.Limits) :
    ∃ made, (store.makeMemories memories).1 = { store with memories := made } := by
  induction memories generalizing store with
  | nil => exact ⟨_, rfl⟩
  | cons limits rest ih =>
    unfold makeMemories
    split
    · exact ih _
    · exact ⟨_, rfl⟩

theorem makeMemories_error {memories : List Core.Limits} {trap : Trap}
    (h : store.makeMemories memories = (store', some trap)) : trap.isForeign = false := by
  induction memories generalizing store with
  | nil => cases h
  | cons limits rest ih =>
    unfold makeMemories at h
    split at h
    · exact ih h
    · cases h
      rfl

theorem makeGlobals_eq (store : Store) (owner : Nat) (globals : List Core.Global) :
    ∃ made, store.makeGlobals owner globals = { store with globals := made } := by
  induction globals generalizing store with
  | nil => exact ⟨_, rfl⟩
  | cons g rest ih =>
    unfold makeGlobals
    exact ih _

theorem changeMemory_eq (store : Store) (memory : Option Nat) (f : Core.Memory → Core.Memory) :
    ∃ memories, store.changeMemory memory f = { store with memories } := by
  cases memory <;> exact ⟨_, rfl⟩

theorem writeData_eq (store : Store) (owner : Nat) (data : List Core.Data) :
    ∃ memories, (store.writeData owner data).1 = { store with memories } := by
  induction data generalizing store with
  | nil => exact ⟨_, rfl⟩
  | cons d rest ih =>
    unfold writeData
    dsimp only
    split
    · obtain ⟨changed, hc⟩ := changeMemory_eq store
        ((store.instances[owner]?).bind fun o => o.memories[d.memory]?)
        fun m => m.write (store.constant owner d.offset).toNat d.bytes
      rw [hc]
      exact ih _
    · exact ⟨_, rfl⟩

theorem writeData_error {owner : Nat} {data : List Core.Data} {trap : Trap}
    (h : store.writeData owner data = (store', some trap)) : trap.isForeign = false := by
  induction data generalizing store with
  | nil => cases h
  | cons d rest ih =>
    unfold writeData at h
    dsimp only at h
    split at h
    · exact ih h
    · cases h
      rfl

/-- What comes of making an instance of a module: the store stays as open as it is, and has no more functions
than those of the module. -/
structure Instantiated (store : Store) (module : Core.Module) (r : Store × Except Trap (Option Nat)) : Prop where
  enterable : r.1.enterable = store.enterable
  functions : r.1.functions = store.functions ++ (module.funcs.map (Function.guest store.instances.size)).toArray
  own : ∀ trap, r.2 = .error trap → trap.isForeign = false

theorem instantiate_instantiated (store : Store) (module : Core.Module) (args : List (String × Nat)) :
    store.Instantiated module (store.instantiate module args) := by
  unfold instantiate
  dsimp only
  split
  · next left trap made =>
    obtain ⟨memories, hm⟩ := makeMemories_eq _ _
    rw [made] at hm
    cases hm
    refine ⟨rfl, rfl, ?_⟩
    rintro _ ⟨⟩
    exact makeMemories_error made
  · next left made =>
    obtain ⟨memories, hm⟩ := makeMemories_eq _ _
    rw [made] at hm
    cases hm
    obtain ⟨globals, hg⟩ := makeGlobals_eq _ _ _
    rw [hg]
    obtain ⟨memories, hw⟩ := writeData_eq _ _ _
    split
    · next written =>
      rw [written] at hw
      cases hw
      refine ⟨rfl, rfl, ?_⟩
      rintro _ ⟨⟩
      exact writeData_error written
    · next written =>
      rw [written] at hw
      cases hw
      exact ⟨rfl, rfl, fun _ => nofun⟩

theorem know_enterable (store : Store) (kind : Core.Kind) (address : Nat) :
    (store.know kind address).enterable = store.enterable := by
  cases kind <;> rfl

theorem build_enterable (store : Store) (steps : List Component.Step) (waits : List Pending)
    (depth : Nat) : (store.build steps waits depth).store.enterable = store.enterable := by
  unfold build
  split
  · rfl
  · rfl
  · split
    · rfl
    · exact know_enterable store _ _
  · rfl
  · next module args rest =>
    have h := (store.instantiate_instantiated module args).enterable
    split
    · next made => rwa [made] at h
    · next made => rwa [made] at h
    · next left start made =>
      rw [made] at h
      have hinvoke : (left.invoke start [] (.build rest :: waits) depth).Stays left False := invoke_stays _ _ _ _ _
      exact hinvoke.enterable.trans h

/-- Making an instance only traps for reasons of the component's own. -/
theorem build_own (store : Store) (steps : List Component.Step) (waits : List Pending) (depth : Nat) :
    (store.build steps waits depth).isForeign = false := by
  unfold build
  split
  · rfl
  · rfl
  · split <;> rfl
  · rfl
  · next module args rest =>
    have h := store.instantiate_instantiated module args
    split
    · next made =>
      rw [made] at h
      exact h.own _ rfl
    · rfl
    · next left start _ =>
      have hinvoke : (left.invoke start [] (.build rest :: waits) depth).Stays left False := invoke_stays _ _ _ _ _
      exact Bool.eq_false_iff.mpr hinvoke.typed

/-- A thread finds something of a wrong type only where it places values that are not of their types. -/
theorem advance_own {thread : Thread} (h : thread.Fits) : (store.advance thread).isForeign = false := by
  cases hb : thread.activity.isBuild with
  | true =>
    obtain ⟨activity, waits, depth⟩ := thread
    cases activity with
    | build steps => exact build_own store steps waits depth
    | run | words | values => cases hb
  | false =>
    have hleaving := store.advance_leaving hb
    generalize store.advance thread = p at hleaving ⊢
    cases hleaving with
    | stays hp => exact Bool.eq_false_iff.mpr fun hf => hp.typed hf h
    | ends => rfl

/-- Whatever a thread does in a store that is open, the store stays open. -/
theorem advance_open (h : store.enterable = true) (thread : Thread) :
    (store.advance thread).store.enterable = true := by
  cases hb : thread.activity.isBuild with
  | true =>
    obtain ⟨activity, waits, depth⟩ := thread
    cases activity with
    | build steps => exact (build_enterable store steps waits depth).trans h
    | run | words | values => cases hb
  | false =>
    have hleaving := store.advance_leaving hb
    generalize store.advance thread = p at hleaving ⊢
    cases hleaving with
    | stays hp => exact hp.enterable.trans h
    | ends he => exact he

end Store

end ComponentHost
