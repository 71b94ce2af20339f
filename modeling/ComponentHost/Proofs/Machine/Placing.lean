import ComponentHost.Proofs.Machine.Steady

/-! # While values are placed

A component that values are placed in cannot call others meanwhile. So what runs above the placement is code of
the component, which comes back with the address of the room that it was asked for. The placement goes on task by
task, and at its end hands words to what has waited behind it. -/
set_option autoImplicit false

namespace ComponentHost

namespace Store

variable {store : Store} {waits : List Pending}

/-! ## Code of the component -/

/-- What a step comes to that only runs code of the component, above what waits already. -/
inductive RunsAbove (waits : List Pending) (store : Store) : Progress → Prop where
  | goes {left : Store} {activity : Activity} (frames : List Frame) (depth : Nat) (hb : activity.isBuild = false)
      (ht : left.token = store.token) (hl : left.leavable = store.leavable) :
      RunsAbove waits store (.go left ⟨activity, frames.map Pending.frame ++ waits, depth⟩)
  | fails {left : Store} {trap : Trap} (h : trap.isForeign = false) : RunsAbove waits store (.trap left trap)

/-- The frame that a step adds to the waits is one more frame above them. -/
theorem RunsAbove.of_frame {frame : Frame} {p : Progress} (h : RunsAbove (.frame frame :: waits) store p) :
    RunsAbove waits store p := by
  cases h with
  | @goes left activity frames depth hb ht hl =>
    have hwaits : frames.map Pending.frame ++ .frame frame :: waits =
        (frames ++ [frame]).map Pending.frame ++ waits := by
      rw [List.map_append, List.append_assoc]
      rfl
    rw [hwaits]
    exact .goes _ depth hb ht hl
  | fails h => exact .fails h

/-- A component that cannot call others only runs its own functions. -/
theorem invoke_runsAbove (hl : store.leavable = false) (address : Nat) (args : List UInt32) (waits : List Pending)
    (depth : Nat) : RunsAbove waits store (store.invoke address args waits depth) := by
  unfold invoke
  split
  · exact .fails rfl
  · split
    · exact .fails rfl
    · exact .goes [] _ rfl rfl rfl
  · rw [hl]
    exact .fails rfl

theorem execute_runsAbove (hl : store.leavable = false) (frame : Frame) (waits : List Pending) (depth : Nat) :
    RunsAbove waits store (store.execute frame waits depth) := by
  have hgo : ∀ {left : Store} (activity : Activity) (depth : Nat), activity.isBuild = false →
      left.token = store.token → left.leavable = store.leavable →
      RunsAbove waits store (.go left ⟨activity, waits, depth⟩) :=
    fun _ depth hb ht hl => .goes [] depth hb ht hl
  have hown : (store.execute frame waits depth).Stays store False := execute_stays store frame waits depth
  unfold execute at hown ⊢
  dsimp only at hown ⊢
  split
  · split <;> exact hgo _ _ rfl rfl rfl
  · split
    case h_2 op _ _ =>
      have hm := apply_refills store (store.firstMemory? frame.owner) op frame.operands
      split
      · next applied =>
        rw [applied] at hm
        exact hgo _ _ rfl hm.token_eq hm.leavable_eq
      · next applied => exact .fails (Trap.isForeign_of_isOwn (apply_error applied))
    case h_8 =>
      split
      · exact .fails rfl
      · exact (invoke_runsAbove hl _ _ _ _).of_frame
    all_goals (repeat' split) <;> first | exact hgo _ _ rfl rfl rfl | exact .fails rfl

/-! ## Placing -/

/-- A thread places values for what waits behind them: above the placement there is only code of the component,
which cannot call others. -/
structure Places (p : Placement) (rest : List Pending) (store : Store) (thread : Thread) : Prop where
  waits : ∃ frames : List Frame, thread.waits = frames.map Pending.frame ++ .placing p :: rest
  runs : thread.activity.isBuild = false
  shut : store.leavable = false

/-- What a thread that places values comes to by a step. It fails for a reason of the component's own, or over a
value that is none of its type. -/
inductive PlacesOn (p : Placement) (rest : List Pending) (store : Store) : Progress → Prop where
  | goes {left : Store} {thread : Thread} {p' : Placement} (ht : left.token = store.token)
      (hp : p' = p ∨ p.Becomes p') (h : left.Places p' rest thread) : PlacesOn p rest store (.go left thread)
  | hands {left : Store} (words : List UInt32) (depth : Nat) (ht : left.token = store.token) :
      PlacesOn p rest store (.go left ⟨.words words, rest, depth⟩)
  | fails {left : Store} {trap : Trap} (h : trap.isForeign = true → ¬ p.Fits) :
      PlacesOn p rest store (.trap left trap)

variable {p p' : Placement} {rest : List Pending}

/-- Code that runs above a placement comes back to it. -/
theorem RunsAbove.placesOn {progress : Progress} (h : RunsAbove (.placing p' :: rest) store progress)
    (hl : store.leavable = false) (hp : p' = p ∨ p.Becomes p') : PlacesOn p rest store progress := by
  cases h with
  | goes frames depth hb ht hleft => exact .goes ht hp ⟨⟨frames, rfl⟩, hb, hleft.trans hl⟩
  | fails h => exact .fails fun hf => Bool.noConfusion (h.symm.trans hf)

theorem place_placesOn (hl : store.leavable = false) (words : List UInt32) (depth : Nat) :
    PlacesOn p rest store (store.place p words rest depth) := by
  have h := store.place_placed p words rest depth
  generalize store.place p words rest depth = progress at h ⊢
  cases h with
  | hands words => exact .hands words depth rfl
  | goes hs hb => exact .goes hs.token_eq (.inr hb) ⟨⟨[], rfl⟩, rfl, hs.leavable_eq.trans hl⟩
  | asks address args hb => exact (invoke_runsAbove hl address args _ depth).placesOn hl (.inr hb)
  | fails h =>
    rcases h with ho | ⟨-, hf⟩
    · exact .fails fun hforeign => Bool.noConfusion ((Trap.isForeign_of_isOwn ho).symm.trans hforeign)
    · exact .fails fun _ => hf

/-- A thread that places values goes on with it until it hands on the words. -/
theorem Places.advance {thread : Thread} (h : store.Places p rest thread) :
    PlacesOn p rest store (store.advance thread) := by
  obtain ⟨activity, waits, depth⟩ := thread
  obtain ⟨⟨frames, hwaits⟩, hb, hl⟩ := h
  have hstuck : PlacesOn p rest store (.trap store .stuck) := .fails nofun
  dsimp only at hwaits
  subst hwaits
  unfold Store.advance
  cases activity with
  | build steps => cases hb
  | run frame =>
    have habove := execute_runsAbove hl frame (frames.map Pending.frame ++ .placing p :: rest) depth
    dsimp only
    generalize store.execute frame (frames.map Pending.frame ++ .placing p :: rest) depth = progress at habove
    cases habove with
    | goes more depth hb ht hleft =>
      refine .goes ht (.inl rfl) ⟨⟨more ++ frames, ?_⟩, hb, hleft.trans hl⟩
      rw [List.map_append, List.append_assoc]
    | fails h => exact .fails fun hf => Bool.noConfusion (h.symm.trans hf)
  | values values => cases frames <;> exact hstuck
  | words words =>
    cases frames with
    | nil => exact place_placesOn hl words depth
    | cons frame frames => exact .goes rfl (.inl rfl) ⟨⟨frames, rfl⟩, rfl, hl⟩

/-- An answer that a component accepts is placed for what waits behind it. -/
theorem acceptReply_placesOn (store : Store) (type : Component.Signature) (memory realloc : Option Nat)
    (area : Option UInt32) (values : List Value) (waits : List Pending) (depth : Nat) :
    ∃ p : Placement, (Value.HaveTypes values type.results → p.Fits) ∧
      PlacesOn p waits store (store.acceptReply type memory realloc area values waits depth) := by
  have hreads := store.resultTarget_reads type memory area
  unfold acceptReply
  split
  · next trap ht =>
    rw [ht] at hreads
    refine ⟨.ofResults memory realloc type values .words, fun h => Placement.ofResults_fits h _ _ _,
      .fails fun hf => ?_⟩
    exact Bool.noConfusion ((Trap.isForeign_of_isOwn hreads).symm.trans hf)
  · next target _ =>
    exact ⟨.ofResults memory realloc type values target, fun h => Placement.ofResults_fits h _ _ _,
      .goes rfl (.inl rfl) ⟨⟨[], rfl⟩, rfl, rfl⟩⟩

end Store

end ComponentHost
