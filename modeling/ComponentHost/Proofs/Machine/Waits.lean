import ComponentHost.Proofs.Component.Exports
import ComponentHost.Proofs.Machine.Chain
import ComponentHost.Proofs.Machine.Steady

/-! # What waits in a thread

A thread puts little among its waits that comes from elsewhere: the steps by which an instance is made, and
the values that are to be placed. What holds of these, and of all else that a thread may wait
for, holds of its waits for good. So the functions of other components that a store calls are those that its
component lowers, and arguments that have their types when they come in have them when they are placed. -/
set_option autoImplicit false

namespace ComponentHost

/-! ## Waits -/

/-- All that waits has a property, which may speak of what waits behind it. -/
def Pending.All (P : Pending → List Pending → Prop) : List Pending → Prop
  | [] => True
  | pending :: waits => P pending waits ∧ All P waits

theorem Pending.All.cons {P : Pending → List Pending → Prop} {pending : Pending} {waits : List Pending}
    (h : P pending waits) (hw : All P waits) : All P (pending :: waits) := ⟨h, hw⟩

theorem Pending.all_true (waits : List Pending) : All (fun _ _ => True) waits := by
  induction waits with
  | nil => trivial
  | cons pending waits ih => exact ⟨trivial, ih⟩

/-- A property of all that a thread may add to its waits by itself. -/
structure Pending.Closed (P : Pending → List Pending → Prop) : Prop where
  frame : ∀ frame waits, P (.frame frame) waits
  build : ∀ step steps waits, P (.build (step :: steps)) waits → P (.build steps) waits
  placing : ∀ p p' waits, p.Becomes p' → P (.placing p) waits → P (.placing p') waits
  enter : ∀ lift waits, P (.enter lift) waits
  body : ∀ lift waits, P (.body lift) waits
  cleanup : ∀ values waits, P (.cleanup values) waits
  reply : ∀ type memory realloc area waits, P (.reply type memory realloc area) waits

/-- All that a thread waits for has a property, and so has an instance that it makes. -/
structure Thread.Within (P : Pending → List Pending → Prop) (thread : Thread) : Prop where
  waits : Pending.All P thread.waits
  build : ∀ steps, thread.activity = .build steps → P (.build steps) thread.waits

/-- What a thread places has a property, when it has the values that it has waited for. -/
def Thread.Takes (P : Pending → List Pending → Prop) (thread : Thread) : Prop :=
  ∀ values type memory realloc area waits, thread.activity = .values values →
    thread.waits = .reply type memory realloc area :: waits →
      ∀ target, P (.placing (.ofResults memory realloc type values target)) waits

/-- A thread waits for a function of an import that it has called, with arguments of the types of its
parameters. -/
structure Thread.Awaits (waiting : Thread) (type : Component.Signature) (args : List Value) : Prop where
  args : Value.HaveTypes args type.params
  reply : ∃ memory realloc area waits, waiting.waits = .reply type memory realloc area :: waits

/-- The thread that a step leaves, to go on or to wait for an answer. -/
def Progress.thread? : Progress → Option Thread
  | .go _ thread => some thread
  | .call _ waiting _ _ _ _ => some waiting
  | .finish _ _ | .trap _ _ => none

/-- A step behind which the waits have a property, and which calls functions of imports only through functions
of the store. -/
def Progress.Within (P : Pending → List Pending → Prop) : Progress → Prop
  | .go _ thread => thread.Within P ∧ ∀ values, thread.activity ≠ .values values
  | .call store waiting interface function args results =>
    waiting.Within P ∧ waiting.activity.isBuild = false ∧ ∃ type memory realloc,
      .lowered (.imported [interface, function]) type memory realloc ∈ store.functions ∧
        waiting.Awaits type args ∧ results = type.results.length
  | .finish _ _ | .trap _ _ => True

namespace Store

section Waits

variable {P : Pending → List Pending → Prop} (hP : Pending.Closed P) {store : Store} {waits : List Pending}
include hP

theorem invoke_within (hw : Pending.All P waits) (address : Nat) (args : List UInt32) (depth : Nat) :
    (store.invoke address args waits depth).Within P := by
  unfold invoke
  split
  · trivial
  · split
    · trivial
    · exact ⟨⟨hw, fun _ => nofun⟩, fun _ => nofun⟩
  · next callee type memory realloc hf =>
    have hreads : Trap.Reads (Value.HaveTypes · type.params) (Value.ofArguments (store.memory? memory) type args) :=
      Value.ofArguments_reads type args
    split
    · trivial
    · split
      · trivial
      · next values hv =>
        rw [hv] at hreads
        split
        · exact ⟨⟨⟨hP.reply _ _ _ _ _, hw⟩, fun _ => nofun⟩, rfl, type, memory, realloc,
            Array.mem_of_getElem? hf, ⟨hreads, memory, realloc, _, waits, rfl⟩, rfl⟩
        · trivial
        · trivial

theorem execute_within (hw : Pending.All P waits) (frame : Frame) (depth : Nat) :
    (store.execute frame waits depth).Within P := by
  have hgo : ∀ (left : Store) (frame : Frame) (depth : Nat),
      (Progress.go left ⟨.run frame, waits, depth⟩).Within P :=
    fun _ _ _ => ⟨⟨hw, fun _ => nofun⟩, fun _ => nofun⟩
  have hback : ∀ (left : Store) (words : List UInt32) (depth : Nat),
      (Progress.go left ⟨.words words, waits, depth⟩).Within P :=
    fun _ _ _ => ⟨⟨hw, fun _ => nofun⟩, fun _ => nofun⟩
  unfold execute
  dsimp only
  split
  · split
    · exact hback _ _ _
    · exact hgo _ _ _
  · split
    case h_8 =>
      split
      · trivial
      · exact invoke_within hP (.cons (hP.frame _ _) hw) _ _ _
    all_goals (repeat' split) <;> first | exact hgo _ _ _ | exact hback _ _ _ | trivial

theorem place_within {p : Placement} (hw : Pending.All P waits) (hp : P (.placing p) waits) (words : List UInt32)
    (depth : Nat) : (store.place p words waits depth).Within P := by
  have hplacing : ∀ {p' : Placement}, p.Becomes p' → Pending.All P (.placing p' :: waits) :=
    fun hb => ⟨hP.placing _ _ _ hb hp, hw⟩
  have h := store.place_placed p words waits depth
  generalize store.place p words waits depth = progress at h ⊢
  cases h with
  | hands => exact ⟨⟨hw, fun _ => nofun⟩, fun _ => nofun⟩
  | goes _ hb => exact ⟨⟨hplacing hb, fun _ => nofun⟩, fun _ => nofun⟩
  | asks _ _ hb => exact invoke_within hP (hplacing hb) _ _ _
  | fails => trivial

theorem callBody_within (lift : Component.Lift) (words : List UInt32) (depth : Nat) :
    (store.callBody lift words depth).Within P := by
  unfold callBody
  split
  · trivial
  · exact invoke_within hP (.cons (hP.body lift []) trivial) _ _ _

theorem leave_within (lift : Component.Lift) (words : List UInt32) : (store.leave lift words).Within P := by
  unfold leave
  split
  · trivial
  · dsimp only
    split
    · trivial
    · split
      · trivial
      · exact invoke_within hP (.cons (hP.cleanup _ []) trivial) _ _ _

omit hP in
theorem acceptReply_within {type : Component.Signature} {memory realloc : Option Nat} {values : List Value}
    (hw : Pending.All P waits) (hp : ∀ target, P (.placing (.ofResults memory realloc type values target)) waits)
    (area : Option UInt32) (depth : Nat) :
    (store.acceptReply type memory realloc area values waits depth).Within P := by
  unfold acceptReply
  split
  · trivial
  · exact ⟨⟨⟨hp _, hw⟩, fun _ => nofun⟩, fun _ => nofun⟩

theorem build_within (hw : Pending.All P waits) {steps : List Component.Step} (hs : P (.build steps) waits)
    (depth : Nat) : (store.build steps waits depth).Within P := by
  have hgo : ∀ (step : Component.Step) (rest : List Component.Step) (left : Store), steps = step :: rest →
      (Progress.go left ⟨.build rest, waits, depth⟩).Within P := by
    rintro step rest left rfl
    refine ⟨⟨hw, ?_⟩, fun _ => nofun⟩
    rintro _ ⟨⟩
    exact hP.build step rest waits hs
  unfold build
  split
  · trivial
  · exact hgo _ _ _ rfl
  · split
    · trivial
    · exact hgo _ _ _ rfl
  · exact hgo _ _ _ rfl
  · split
    · trivial
    · exact hgo _ _ _ rfl
    · exact invoke_within hP (.cons (hP.build _ _ _ hs) hw) _ _ _

/-- Every step keeps what holds of the waits of a thread. -/
theorem advance_within (store : Store) {thread : Thread} (h : thread.Within P) (ht : thread.Takes P) :
    (store.advance thread).Within P := by
  obtain ⟨activity, waits, depth⟩ := thread
  obtain ⟨hw, hb⟩ := h
  unfold advance
  cases activity with
  | run frame => exact execute_within hP hw frame depth
  | build steps => exact build_within hP hw (hb steps rfl) depth
  | values values =>
    cases waits with
    | nil => trivial
    | cons pending waits =>
      cases pending with
      | reply type memory realloc area =>
        exact acceptReply_within hw.2 (ht _ _ _ _ _ _ rfl rfl) _ _
      | _ => trivial
  | words words =>
    cases waits with
    | nil => trivial
    | cons pending waits =>
      obtain ⟨hfirst, hrest⟩ := hw
      cases pending with
      | frame frame => exact ⟨⟨hrest, fun _ => nofun⟩, fun _ => nofun⟩
      | build steps =>
        refine ⟨⟨hrest, ?_⟩, fun _ => nofun⟩
        rintro _ ⟨⟩
        exact hfirst
      | placing p => exact place_within hP hrest hfirst words depth
      | enter lift => exact callBody_within hP lift words depth
      | body lift => exact leave_within hP lift words
      | cleanup values => trivial
      | reply => trivial

/-- What holds of the arguments that a store is called with holds of what it waits for. -/
theorem receive_within (store : Store) {interface function : String} {args : List Value}
    (ha : ∀ lift type, store.component.member? interface function = some (.func (.lifted lift) type) →
      ∀ memory realloc, P (.placing (.ofArguments memory realloc lift.type args)) [.enter lift])
    (results : Nat) (token : Option Token) :
    (store.receive interface function args results token).Within P := by
  unfold receive
  split
  · trivial
  · next lift type hm =>
    unfold enter
    dsimp only
    split
    · trivial
    · split
      · trivial
      · split
        · trivial
        · exact ⟨⟨⟨ha lift type hm _ _, hP.enter lift _, trivial⟩, fun _ => nofun⟩, fun _ => nofun⟩
  · trivial
  · trivial

end Waits

end Store

/-! ## Arguments -/

/-- The values that are still to be placed are values of their types. -/
def Pending.Fits : Pending → List Pending → Prop
  | .placing p, _ => p.Fits
  | _, _ => True

theorem Placement.Becomes.fits {p p' : Placement} (hb : p.Becomes p') (h : p.Fits) : p'.Fits := by
  have hfirst : ∀ {task : Task} {rest : List Task}, p.tasks = task :: rest →
      task.Fits ∧ ∀ task ∈ rest, task.Fits :=
    fun ht => List.forall_mem_cons.mp (ht ▸ h)
  cases hb with
  | @part part target rest tasks htasks ht =>
    obtain ⟨hpart, hrest⟩ := hfirst htasks
    have hreads := Part.Fits.tasks hpart target
    rw [ht] at hreads
    exact List.forall_mem_append.mpr ⟨hreads, hrest⟩
  | number htasks => exact (hfirst htasks).2
  | ask htasks =>
    obtain ⟨hcontents, hrest⟩ := hfirst htasks
    exact List.forall_mem_cons.mpr ⟨hcontents, hrest⟩
  | fill htasks =>
    obtain ⟨hcontents, hrest⟩ := hfirst htasks
    exact List.forall_mem_append.mpr ⟨Task.contents_fits hcontents _ _, hrest⟩

theorem Pending.fits_closed : Pending.Closed Pending.Fits where
  frame := fun _ _ => trivial
  build := fun _ _ _ _ => trivial
  placing := fun _ _ _ hb h => hb.fits h
  enter := fun _ _ => trivial
  body := fun _ _ => trivial
  cleanup := fun _ _ => trivial
  reply := fun _ _ _ _ _ => trivial

/-- What a thread places next is of its types, if all that it places is. -/
theorem Thread.Within.fits {thread : Thread} (h : thread.Within Pending.Fits) : thread.Fits := by
  obtain ⟨activity, waits, depth⟩ := thread
  unfold Thread.Fits
  split
  · next he =>
    cases he
    exact h.waits.1
  · trivial

/-- What is placed is for a function that is entered: the arguments of a call. -/
def Pending.IsArgument : Pending → List Pending → Prop
  | .placing _, waits => ∃ lift, waits = [.enter lift]
  | _, _ => True

theorem Pending.isArgument_closed : Pending.Closed Pending.IsArgument where
  frame := fun _ _ => trivial
  build := fun _ _ _ _ => trivial
  placing := fun _ _ _ _ h => h
  enter := fun _ _ => trivial
  body := fun _ _ => trivial
  cleanup := fun _ _ => trivial
  reply := fun _ _ _ _ _ => trivial

/-- A thread that has no values takes none, whatever is said of them. -/
theorem Thread.takes_of_ne {thread : Thread} (hv : ∀ values, thread.activity ≠ .values values)
    (P : Pending → List Pending → Prop) : thread.Takes P :=
  fun values _ _ _ _ _ he => absurd he (hv values)

/-! ## Functions of imports -/

namespace Component

/-- The functions that the steps of a component lower. -/
def Lowers (c : Component) (callee : Callee) (type : Signature) : Prop :=
  ∃ memory realloc, Step.lower callee type memory realloc ∈ c.steps

end Component

/-- The instance that is still to be made is one of a component. -/
def Pending.Builds (c : Component) : Pending → List Pending → Prop
  | .build steps, _ => steps ⊆ c.steps
  | _, _ => True

theorem Pending.builds_closed (c : Component) : Pending.Closed (Pending.Builds c) where
  frame := fun _ _ => trivial
  build := fun _ _ _ h => List.subset_of_cons_subset h
  placing := fun _ _ _ _ _ => trivial
  enter := fun _ _ => trivial
  body := fun _ _ => trivial
  cleanup := fun _ _ => trivial
  reply := fun _ _ _ _ _ => trivial

namespace Store

/-- The functions of other components that a store has are those that its component lowers. -/
def Lowered (store : Store) : Prop :=
  ∀ callee type memory realloc, .lowered callee type memory realloc ∈ store.functions →
    store.component.Lowers callee type

variable {store store' : Store}

theorem Lowered.of_functions (h : store.Lowered) (hc : store'.component = store.component)
    (hf : ∀ callee type memory realloc, .lowered callee type memory realloc ∈ store'.functions →
      .lowered callee type memory realloc ∈ store.functions ∨ store.component.Lowers callee type) :
    store'.Lowered := by
  intro callee type memory realloc hm
  rw [hc]
  rcases hf callee type memory realloc hm with hm | hl
  · exact h callee type memory realloc hm
  · exact hl

theorem fresh_lowered (component : Component) (maxMemoryBytes : Option Nat) (links : List (String × Nat)) :
    (fresh component maxMemoryBytes links).Lowered :=
  fun _ _ _ _ hm => absurd hm (Array.not_mem_empty _)

theorem Lowered.of_eq (h : store.Lowered) (hc : store'.component = store.component)
    (hf : store'.functions = store.functions) : store'.Lowered :=
  h.of_functions hc fun _ _ _ _ hm => .inl (hf ▸ hm)

theorem know_functions (store : Store) (kind : Core.Kind) (address : Nat) :
    (store.know kind address).functions = store.functions := by
  cases kind <;> rfl

/-- The functions that the making of an instance adds are those of a module, and those that are lowered. -/
theorem build_functions {steps : List Component.Step} (waits : List Pending) (depth : Nat)
    {callee : Component.Callee} {type : Component.Signature} {memory realloc : Option Nat}
    (h : .lowered callee type memory realloc ∈ (store.build steps waits depth).store.functions) :
    .lowered callee type memory realloc ∈ store.functions ∨
      ∃ memory realloc, Component.Step.lower callee type memory realloc ∈ steps := by
  unfold build at h
  split at h
  · exact .inl h
  · exact .inl h
  · split at h
    · exact .inl h
    · exact .inl (know_functions _ _ _ ▸ h)
  · next callee' type' memory' realloc' rest =>
    have hpushed : Function.lowered callee type memory realloc ∈
        store.functions.push (.lowered callee' type' _ _) := h
    rcases Array.mem_push.mp hpushed with h | h
    · exact .inl h
    · cases h
      exact .inr ⟨_, _, List.mem_cons_self⟩
  · next module args rest =>
    have hmade := store.instantiate_instantiated module args
    have hfunctions : ∀ {left : Store} {r : Except Trap (Option Nat)},
        store.instantiate module args = (left, r) → .lowered callee type memory realloc ∈ left.functions →
          .lowered callee type memory realloc ∈ store.functions := by
      intro left r hr hm
      rw [hr] at hmade
      rw [show left.functions = _ from hmade.functions, Array.mem_append] at hm
      rcases hm with hm | hm
      · exact hm
      · simp at hm
    split at h
    · next hr => exact .inl (hfunctions hr h)
    · next hr => exact .inl (hfunctions hr h)
    · next left start hr =>
      have hinvoke : (left.invoke start [] (.build rest :: waits) depth).Stays left False := invoke_stays _ _ _ _ _
      exact .inl (hfunctions hr (hinvoke.functions ▸ h))

/-- Every step keeps that the functions of a store are those that its component lowers. -/
theorem advance_lowered (h : store.Lowered) {thread : Thread}
    (ht : thread.Within (Pending.Builds store.component)) : (store.advance thread).store.Lowered := by
  have hcomponent : (store.advance thread).store.component = store.component :=
    congrArg Prod.fst (store.advance_evolves thread).wiring
  cases hb : thread.activity.isBuild with
  | true =>
    obtain ⟨activity, waits, depth⟩ := thread
    cases activity with
    | build steps =>
      refine h.of_functions hcomponent fun callee type memory realloc hm => ?_
      refine (build_functions waits depth hm).imp_right ?_
      rintro ⟨memory, realloc, hs⟩
      exact ⟨memory, realloc, ht.build steps rfl hs⟩
    | run | words | values => cases hb
  | false =>
    have hleaving := store.advance_leaving hb
    generalize store.advance thread = p at hleaving hcomponent ⊢
    cases hleaving with
    | stays hp => exact h.of_eq hcomponent hp.functions
    | ends _ hf => exact h.of_eq hcomponent hf

theorem receive_functions (store : Store) (interface function : String) (args : List Value) (results : Nat)
    (token : Option Token) :
    (store.receive interface function args results token).store.functions = store.functions := by
  unfold receive enter
  dsimp only
  (repeat' split) <;> rfl

end Store

end ComponentHost
