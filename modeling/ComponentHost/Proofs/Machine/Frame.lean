import ComponentHost.Machine.Build
import ComponentHost.Proofs.Core.Memory
import ComponentHost.Proofs.Machine.Values

/-! # What a store keeps

Whatever runs in a store, the store keeps its component, the links to its providers and its limit for
memories, and no memory gets larger than that; the token in it stays the same or is laid down.
`Store.Evolves` says so of two states of a store; every operation leads to a store that evolves from the
one it was given. -/
set_option autoImplicit false

namespace ComponentHost

/-- The store that a step of a thread leaves. -/
def Progress.store : Progress → Store
  | .go store _ => store
  | .call store _ _ _ _ _ => store
  | .finish store _ => store
  | .trap store _ => store

namespace Store

/-- No memory of a store is larger than memories may be. -/
def Bounded (store : Store) : Prop := ∀ memory ∈ store.memories, memory.Within store.maxMemoryBytes

/-- What becomes of a store while its instance is made and called. -/
structure Evolves (before after : Store) : Prop where
  component : after.component = before.component
  links : after.links = before.links
  token : after.token = before.token ∨ after.token = none
  maxMemoryBytes : after.maxMemoryBytes = before.maxMemoryBytes
  bounded : before.Bounded → after.Bounded

namespace Evolves

theorem refl (store : Store) : store.Evolves store := ⟨rfl, rfl, .inl rfl, rfl, id⟩

theorem trans {s t u : Store} (h : s.Evolves t) (h' : t.Evolves u) : s.Evolves u where
  component := h'.component.trans h.component
  links := h'.links.trans h.links
  token := by
    rcases h'.token with ht | ht
    · rw [ht]
      exact h.token
    · exact .inr ht
  maxMemoryBytes := h'.maxMemoryBytes.trans h.maxMemoryBytes
  bounded := fun hb => h'.bounded (h.bounded hb)

end Evolves

/-! ## Memories -/

/-- Stores that differ in what is in their memories only. -/
structure Refills (before after : Store) : Prop where
  memories : ∃ memories, after = { before with memories }
  bounded : before.Bounded → after.Bounded

namespace Refills

variable {before after : Store}

theorem refl (store : Store) : store.Refills store := ⟨⟨store.memories, rfl⟩, id⟩

theorem evolves (h : before.Refills after) : before.Evolves after := by
  obtain ⟨⟨memories, rfl⟩, hb⟩ := h
  exact ⟨rfl, rfl, .inl rfl, rfl, hb⟩

theorem token_eq (h : before.Refills after) : after.token = before.token := by
  obtain ⟨⟨memories, rfl⟩, -⟩ := h
  rfl

theorem leavable_eq (h : before.Refills after) : after.leavable = before.leavable := by
  obtain ⟨⟨memories, rfl⟩, -⟩ := h
  rfl

end Refills

theorem updateMemory_refills (store : Store) (address : Nat) {f : Core.Memory → Core.Memory}
    (hf : ∀ m, m.Within store.maxMemoryBytes → (f m).Within store.maxMemoryBytes) :
    store.Refills (store.updateMemory address f) where
  memories := ⟨_, rfl⟩
  bounded := fun hb memory hm => by
    obtain ⟨i, hi⟩ := Array.mem_iff_getElem?.mp hm
    rw [updateMemory, Array.getElem?_modify] at hi
    split at hi
    · obtain ⟨old, ho, rfl⟩ := Option.map_eq_some_iff.mp hi
      exact hf old (hb old (Array.mem_of_getElem? ho))
    · exact hb memory (Array.mem_of_getElem? hi)

theorem changeMemory_refills (store : Store) (memory : Option Nat) {f : Core.Memory → Core.Memory}
    (hf : ∀ m, m.Within store.maxMemoryBytes → (f m).Within store.maxMemoryBytes) :
    store.Refills (store.changeMemory memory f) := by
  cases memory with
  | none => exact .refl store
  | some address => exact updateMemory_refills store address hf

theorem growMemory_refills (store : Store) (memory : Option Nat) (more : Nat) :
    store.Refills (store.growMemory memory more).1 := by
  unfold growMemory
  split
  · exact .refl store
  · split
    · exact .refl store
    · next hg => exact changeMemory_refills store memory fun _ _ => Core.Memory.within_grow? hg

theorem putNumber_refills (store : Store) (p : Placement) (value : UInt32) (bytes : Nat) (target : Target) :
    store.Refills (store.putNumber p value bytes target).1 := by
  cases target with
  | words => exact .refl store
  | memory address => exact changeMemory_refills store _ fun _ hm => hm.of_size (Core.Memory.size_writeNumber ..)

/-- Contents that cannot be put where room was made for them are the fault of the component that made it. -/
theorem fill_reads (store : Store) (memory : Option Nat) (contents : Contents) (address : Nat) :
    Trap.Reads store.Refills (store.fill memory contents address) := by
  unfold fill
  split
  · rfl
  · split
    · exact changeMemory_refills store _ fun _ hm => hm.of_size (Core.Memory.size_write ..)
    · rfl

/-! ## Instructions -/

theorem apply_refills (store : Store) (memory : Option Nat) (op : Core.Simple) (operands : List UInt32) :
    store.Refills (store.apply memory op operands).1 := by
  -- only those that write to a memory, with all their operands there, change the store
  cases op with
  | store kind offset =>
    rcases operands with _ | ⟨w, _ | ⟨a, rest⟩⟩
    · exact .refl store
    · exact .refl store
    · unfold apply
      dsimp only
      split
      · exact changeMemory_refills store memory fun _ hm => hm.of_size (Core.Memory.size_writeNumber ..)
      · exact .refl store
  | memoryGrow =>
    rcases operands with _ | ⟨more, rest⟩
    · exact .refl store
    · have h := growMemory_refills store memory more.toNat
      unfold apply
      dsimp only
      split
      · next grown => rwa [grown] at h
      · next grown => rwa [grown] at h
  | memoryCopy =>
    rcases operands with _ | ⟨n, _ | ⟨source, _ | ⟨target, rest⟩⟩⟩
    · exact .refl store
    · exact .refl store
    · exact .refl store
    · unfold apply
      dsimp only
      split
      · exact changeMemory_refills store memory fun _ hm => hm.of_size (Core.Memory.size_copy ..)
      · exact .refl store
  | memoryFill =>
    rcases operands with _ | ⟨n, _ | ⟨w, _ | ⟨target, rest⟩⟩⟩
    · exact .refl store
    · exact .refl store
    · exact .refl store
    · unfold apply
      dsimp only
      split
      · exact changeMemory_refills store memory fun _ hm => hm.of_size (Core.Memory.size_fill ..)
      · exact .refl store
  | _ => rcases operands with _ | ⟨c, _ | ⟨b, _ | ⟨a, rest⟩⟩⟩ <;> exact .refl store

theorem invoke_evolves (store : Store) (address : Nat) (args : List UInt32) (waits : List Pending)
    (depth : Nat) : store.Evolves (store.invoke address args waits depth).store := by
  unfold invoke
  (repeat' split) <;> exact .refl store

theorem execute_evolves (store : Store) (frame : Frame) (waits : List Pending) (depth : Nat) :
    store.Evolves (store.execute frame waits depth).store := by
  unfold execute
  dsimp only
  split
  · split <;> exact .refl store
  · split
    case h_2 op _ _ =>
      have h := (apply_refills store (store.firstMemory? frame.owner) op frame.operands).evolves
      split
      · next applied => rwa [applied] at h
      · next applied => rwa [applied] at h
    case h_8 =>
      split
      · exact .refl store
      · exact invoke_evolves store _ _ _ _
    all_goals (repeat' split) <;> exact ⟨rfl, rfl, .inl rfl, rfl, id⟩

/-! ## Placing values -/

end Store

/-- A placement becomes another one by a step that does its first task. -/
inductive Placement.Becomes (p : Placement) : Placement → Prop where
  | part {part : Part} {target : Target} {rest tasks : List Task} (h : p.tasks = .part part target :: rest)
      (ht : part.tasks target = .ok tasks) : Becomes p { p with tasks := tasks ++ rest }
  | number {value : UInt32} {bytes : Nat} {target : Target} {rest : List Task} {words : List UInt32}
      (h : p.tasks = .number value bytes target :: rest) : Becomes p { p with tasks := rest, words }
  | ask {contents : Contents} {target : Target} {rest : List Task} (h : p.tasks = .ask contents target :: rest) :
      Becomes p { p with tasks := .fill contents target :: rest }
  | fill {contents : Contents} {target : Target} {rest : List Task} {address : UInt32}
      (h : p.tasks = .fill contents target :: rest) :
      Becomes p { p with tasks := Task.contents contents address target ++ rest }

namespace Store

/-- What a step of placing values comes to. It fails for a reason of the component's own, or over a value that is
no value of its type. -/
inductive Placed (store : Store) (p : Placement) (waits : List Pending) (depth : Nat) : Progress → Prop where
  | hands (words : List UInt32) : Placed store p waits depth
      (.go { store with leavable := true } ⟨.words words, waits, depth⟩)
  | goes {left : Store} {p' : Placement} (hs : store.Refills left) (hp : p.Becomes p') :
      Placed store p waits depth (.go left ⟨.words [], .placing p' :: waits, depth⟩)
  | asks {p' : Placement} (address : Nat) (args : List UInt32) (hp : p.Becomes p') :
      Placed store p waits depth (store.invoke address args (.placing p' :: waits) depth)
  | fails {trap : Trap} (h : trap.isOwn = true ∨ trap.isMisfit = true ∧ ¬ p.Fits) :
      Placed store p waits depth (.trap store trap)

theorem place_placed (store : Store) (p : Placement) (words : List UInt32) (waits : List Pending) (depth : Nat) :
    store.Placed p waits depth (store.place p words waits depth) := by
  unfold place
  split
  · exact .hands _
  · next part target rest htasks =>
    split
    · next trap ht =>
      refine .fails ((Part.tasks_error ht).imp_right fun hm => ⟨hm, fun hf => ?_⟩)
      have hpart : (Task.part part target).Fits := hf _ (htasks ▸ List.mem_cons_self)
      have hown := Part.Fits.tasks hpart target
      rw [ht] at hown
      cases Trap.isForeign_of_isOwn hown ▸ Trap.isForeign_of_isMisfit hm
    · next ht => exact .goes (.refl store) (.part htasks ht)
  · next value bytes target rest htasks =>
    refine .goes (putNumber_refills store p value bytes target) ?_
    cases target with
    | words => exact .number htasks
    | memory => exact .number htasks
  · next htasks =>
    split
    · exact .fails (.inl rfl)
    · split
      · exact .asks _ _ (.ask htasks)
      · exact .fails (.inl rfl)
  · next contents target rest address htasks =>
    have hfill := store.fill_reads p.memory contents address.toNat
    split
    · next ht =>
      rw [ht] at hfill
      exact .fails (.inl hfill)
    · next ht =>
      rw [ht] at hfill
      exact .goes hfill (.fill htasks)
  · exact .fails (.inl rfl)

/-! ## Crossing the boundary of the component -/

theorem place_evolves (store : Store) (p : Placement) (words : List UInt32) (waits : List Pending)
    (depth : Nat) : store.Evolves (store.place p words waits depth).store := by
  have h := store.place_placed p words waits depth
  generalize store.place p words waits depth = progress at h ⊢
  cases h with
  | hands | fails => exact ⟨rfl, rfl, .inl rfl, rfl, id⟩
  | goes hs => exact hs.evolves
  | asks => exact invoke_evolves store _ _ _ _

theorem enter_evolves (store : Store) (lift : Component.Lift) (args : List Value) (results : Nat) :
    store.Evolves (store.enter lift args results).store := by
  unfold enter
  dsimp only
  (repeat' split) <;> exact ⟨rfl, rfl, .inl rfl, rfl, id⟩

theorem callBody_evolves (store : Store) (lift : Component.Lift) (words : List UInt32) (depth : Nat) :
    store.Evolves (store.callBody lift words depth).store := by
  unfold callBody
  split
  · exact .refl store
  · exact invoke_evolves store _ _ _ _

/-- A call may put its token into the store. -/
theorem receive_evolves (store : Store) (interface function : String) (args : List Value)
    (results : Nat) (token : Option Token) :
    let left := (store.receive interface function args results token).store
    store.Evolves left ∨ { store with token }.Evolves left := by
  dsimp only
  unfold receive
  split
  · exact .inl (.refl store)
  · exact .inr (enter_evolves _ _ _ _)
  · exact .inl (.refl store)
  · exact .inl (.refl store)

theorem leave_evolves (store : Store) (lift : Component.Lift) (words : List UInt32) :
    store.Evolves (store.leave lift words).store := by
  unfold leave
  split
  · exact .refl store
  · dsimp only
    split
    · exact ⟨rfl, rfl, .inr rfl, rfl, id⟩
    · split
      · exact ⟨rfl, rfl, .inr rfl, rfl, id⟩
      · exact .trans (t := { store with token := none, leavable := false }) ⟨rfl, rfl, .inr rfl, rfl, id⟩
          (invoke_evolves _ _ _ _ _)

theorem acceptReply_evolves (store : Store) (type : Component.Signature) (memory realloc : Option Nat)
    (area : Option UInt32) (values : List Value) (waits : List Pending) (depth : Nat) :
    store.Evolves (store.acceptReply type memory realloc area values waits depth).store := by
  unfold acceptReply
  split <;> exact ⟨rfl, rfl, .inl rfl, rfl, id⟩

/-! ## Making the instance -/

theorem know_evolves (store : Store) (kind : Core.Kind) (address : Nat) :
    store.Evolves (store.know kind address) := by
  cases kind <;> exact ⟨rfl, rfl, .inl rfl, rfl, id⟩

theorem makeMemories_evolves (store : Store) (memories : List Core.Limits) :
    store.Evolves (store.makeMemories memories).1 := by
  induction memories generalizing store with
  | nil => exact .refl store
  | cons limits rest ih =>
    unfold makeMemories
    split
    · next hall =>
      refine .trans ?_ (ih _)
      refine ⟨rfl, rfl, .inl rfl, rfl, fun hb memory hm => ?_⟩
      rcases Array.mem_push.mp hm with hm | rfl
      · exact hb memory hm
      · exact Core.Memory.within_zeros _ hall
    · exact .refl store

theorem makeGlobals_evolves (store : Store) (owner : Nat) (globals : List Core.Global) :
    store.Evolves (store.makeGlobals owner globals) := by
  induction globals generalizing store with
  | nil => exact .refl store
  | cons g rest ih =>
    unfold makeGlobals
    refine .trans ?_ (ih _)
    exact ⟨rfl, rfl, .inl rfl, rfl, id⟩

theorem writeData_evolves (store : Store) (owner : Nat) (data : List Core.Data) :
    store.Evolves (store.writeData owner data).1 := by
  induction data generalizing store with
  | nil => exact .refl store
  | cons d rest ih =>
    unfold writeData
    dsimp only
    split
    · refine .trans (changeMemory_refills store _ fun _ hm => ?_).evolves (ih _)
      exact hm.of_size (Core.Memory.size_write ..)
    · exact .refl store

theorem instantiate_evolves (store : Store) (module : Core.Module) (args : List (String × Nat)) :
    store.Evolves (store.instantiate module args).1 := by
  unfold instantiate
  dsimp only
  split
  · next left trap made =>
    have h : left = (makeMemories _ module.memories).1 := (congrArg Prod.fst made).symm
    rw [h]
    refine .trans ?_ (makeMemories_evolves _ _)
    exact ⟨rfl, rfl, .inl rfl, rfl, id⟩
  · next left made =>
    have h : left = (makeMemories _ module.memories).1 := (congrArg Prod.fst made).symm
    have hm : store.Evolves left := by
      rw [h]
      refine .trans ?_ (makeMemories_evolves _ _)
      exact ⟨rfl, rfl, .inl rfl, rfl, id⟩
    have hw := (hm.trans (makeGlobals_evolves left store.instances.size module.globals)).trans
      (writeData_evolves _ store.instances.size module.data)
    split
    · next written => rwa [written] at hw
    · next written => rwa [written] at hw

theorem build_evolves (store : Store) (steps : List Component.Step) (waits : List Pending)
    (depth : Nat) : store.Evolves (store.build steps waits depth).store := by
  unfold build
  split
  · exact .refl store
  · exact ⟨rfl, rfl, .inl rfl, rfl, id⟩
  · split
    · exact .refl store
    · exact know_evolves store _ _
  · dsimp only [Progress.store]
    refine .trans ?_ (know_evolves _ _ _)
    exact ⟨rfl, rfl, .inl rfl, rfl, id⟩
  · next module args _ =>
    have h := instantiate_evolves store module args
    split
    · next made => rwa [made] at h
    · next made => rwa [made] at h
    · next made =>
      rw [made] at h
      exact h.trans (invoke_evolves _ _ _ _ _)

/-! ## Any step -/

theorem advance_evolves (store : Store) (thread : Thread) :
    store.Evolves (store.advance thread).store := by
  unfold advance
  split
  · exact execute_evolves store _ _ _
  · exact build_evolves store _ _ _
  · split
    case h_4 => exact place_evolves store _ _ _ _
    case h_5 => exact callBody_evolves store _ _ _
    case h_6 => exact leave_evolves store _ _
    all_goals exact ⟨rfl, rfl, .inl rfl, rfl, id⟩
  · split
    · exact acceptReply_evolves store _ _ _ _ _ _ _
    · exact .refl store

end Store

end ComponentHost
