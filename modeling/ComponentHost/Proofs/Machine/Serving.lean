import ComponentHost.Proofs.Machine.Frame

/-! # Calls that a store serves

A thread that serves a call has at the bottom of its waits what the call goes through: its arguments are
placed, its body runs, and something clears up behind it. `Store.Serves` says so of a store and the waits of
a thread in it: as long as the call goes on the store has the token of the call, and behind it none; and
what the call comes to are values of the types that it was made for. Every operation keeps this. -/
set_option autoImplicit false

namespace ComponentHost

/-! ## What waits in a thread -/

namespace Pending

/-- What a call goes through that has these types of results. -/
def Returns (types : List Component.ValType) : Pending → Prop
  | .enter lift => lift.type.results = types
  | .body lift => lift.type.results = types
  | .frame _ | .build _ | .placing _ | .cleanup _ | .reply _ _ _ _ => False

/-- What waits in a thread above what is at the bottom. Only where calls of other components are allowed
are values placed, or does something wait for such a call. -/
inductive Waits (base : Pending) (mayCall : Bool) : List Pending → Prop where
  | base : Waits base mayCall [base]
  | frame {waits : List Pending} (frame : Frame) (h : Waits base mayCall waits) :
      Waits base mayCall (.frame frame :: waits)
  | reply {waits : List Pending} (type : Component.Signature) (memory realloc : Option Nat)
      (area : Option UInt32) (hc : mayCall = true) (h : Waits base mayCall waits) :
      Waits base mayCall (.reply type memory realloc area :: waits)
  | placing {waits : List Pending} (p : Placement) (hc : mayCall = true) (h : Waits base mayCall waits) :
      Waits base mayCall (.placing p :: waits)

end Pending

/-- Whether an instance is being made. -/
def Activity.isBuild : Activity → Bool
  | .build _ => true
  | .run _ | .words _ | .values _ => false

/-- A thread whose waits are these serves a call in the store, made with a token for results of types. -/
inductive Store.Serves (types : List Component.ValType) (token : Option Token) (store : Store) :
    List Pending → Prop where
  /-- The call goes on. -/
  | calling {base : Pending} {waits : List Pending} (hb : base.Returns types)
      (hw : base.Waits true waits) (ht : store.token = token) : Serves types token store waits
  /-- The results are there, and the store clears up behind the call. -/
  | clearing {values : List Value} {waits : List Pending} (hv : Value.HaveTypes values types)
      (hw : (Pending.cleanup values).Waits false waits) (ht : store.token = none)
      (hl : store.leavable = false) : Serves types token store waits

/-- A step after which the call is still served, or has come to its values, or has failed. -/
def Progress.Serves (types : List Component.ValType) (token : Option Token) : Progress → Prop
  | .go store thread => store.Serves types token thread.waits ∧ thread.activity.isBuild = false
  | .call store thread _ _ _ _ =>
    store.Serves types token thread.waits ∧ thread.activity.isBuild = false ∧ store.token = token
  | .finish store values => Value.HaveTypes values types ∧ store.token = none
  | .trap _ _ => True

namespace Store

variable {types : List Component.ValType} {token : Option Token} {store store' : Store}
  {waits : List Pending}

namespace Serves

theorem of_eq (h : store.Serves types token waits) (ht : store'.token = store.token)
    (hl : store'.leavable = store.leavable) : store'.Serves types token waits := by
  cases h with
  | calling hb hw hs => exact .calling hb hw (ht.trans hs)
  | clearing hv hw hs hn => exact .clearing hv hw (ht.trans hs) (hl.trans hn)

theorem frame (h : store.Serves types token waits) (frame : Frame) :
    store.Serves types token (.frame frame :: waits) := by
  cases h with
  | calling hb hw hs => exact .calling hb (.frame frame hw) hs
  | clearing hv hw hs hn => exact .clearing hv (.frame frame hw) hs hn

/-- In a store that may be left, the call goes on. -/
theorem calls (h : store.Serves types token waits) (hl : store.leavable = true) :
    store.token = token ∧ ∃ base : Pending, base.Returns types ∧ base.Waits true waits := by
  cases h with
  | calling hb hw hs => exact ⟨hs, _, hb, hw⟩
  | clearing hv hw hs hn =>
    rw [hl] at hn
    cases hn

theorem of_frame {frame : Frame} (h : store.Serves types token (.frame frame :: waits)) :
    store.Serves types token waits := by
  cases h with
  | calling hb hw hs =>
    cases hw with
    | base => cases hb
    | frame _ hw => exact .calling hb hw hs
  | clearing hv hw hs hn =>
    cases hw with
    | frame _ hw => exact .clearing hv hw hs hn

/-- Where something waits for another component, the call goes on. -/
theorem of_reply {type : Component.Signature} {memory realloc : Option Nat} {area : Option UInt32}
    (h : store.Serves types token (.reply type memory realloc area :: waits)) :
    store.token = token ∧ ∃ base : Pending, base.Returns types ∧ base.Waits true waits := by
  cases h with
  | calling hb hw hs =>
    cases hw with
    | base => cases hb
    | reply _ _ _ _ _ hw => exact ⟨hs, _, hb, hw⟩
  | clearing hv hw =>
    cases hw with
    | reply _ _ _ _ hc => cases hc

/-- Where values are placed, the call goes on. -/
theorem of_placing {p : Placement} (h : store.Serves types token (.placing p :: waits)) :
    store.token = token ∧ ∃ base : Pending, base.Returns types ∧ base.Waits true waits := by
  cases h with
  | calling hb hw hs =>
    cases hw with
    | base => cases hb
    | placing _ _ hw => exact ⟨hs, _, hb, hw⟩
  | clearing hv hw =>
    cases hw with
    | placing _ hc => cases hc

end Serves

/-! ## Running code -/

theorem invoke_serves (h : store.Serves types token waits) (address : Nat) (args : List UInt32)
    (depth : Nat) : (store.invoke address args waits depth).Serves types token := by
  unfold invoke
  split
  · trivial
  · split
    · trivial
    · exact ⟨h, rfl⟩
  · split
    · trivial
    · next hl =>
      split
      · trivial
      · split
        · obtain ⟨ht, base, hb, hw⟩ := h.calls (by simpa using hl)
          exact ⟨.calling hb (.reply _ _ _ _ rfl hw) ht, rfl, ht⟩
        · trivial
        · trivial

theorem execute_serves (h : store.Serves types token waits) (frame : Frame) (depth : Nat) :
    (store.execute frame waits depth).Serves types token := by
  unfold execute
  dsimp only
  split
  · split <;> exact ⟨h, rfl⟩
  · split
    case h_2 op _ _ =>
      have hm := apply_refills store (store.firstMemory? frame.owner) op frame.operands
      split
      · next applied =>
        rw [applied] at hm
        exact ⟨h.of_eq hm.token_eq hm.leavable_eq, rfl⟩
      · trivial
    case h_8 =>
      split
      · trivial
      · exact invoke_serves (h.frame _) _ _ _
    all_goals (repeat' split) <;> first | exact ⟨h, rfl⟩ | exact ⟨h.of_eq rfl rfl, rfl⟩ | trivial

theorem place_serves {p : Placement} (h : store.Serves types token (.placing p :: waits)) (words : List UInt32)
    (depth : Nat) : (store.place p words waits depth).Serves types token := by
  obtain ⟨ht, base, hb, hw⟩ := h.of_placing
  have hplacing : ∀ (left : Store) (p' : Placement), left.token = store.token →
      left.Serves types token (.placing p' :: waits) :=
    fun left p' hl => .calling hb (.placing p' rfl hw) (hl.trans ht)
  have hplaced := store.place_placed p words waits depth
  generalize store.place p words waits depth = progress at hplaced ⊢
  cases hplaced with
  | hands => exact ⟨.calling hb hw ht, rfl⟩
  | goes hs => exact ⟨hplacing _ _ hs.token_eq, rfl⟩
  | asks => exact invoke_serves (hplacing _ _ rfl) _ _ _
  | fails => trivial

/-! ## Entering and leaving -/

variable {lift : Component.Lift}

theorem enter_serves (hr : lift.type.results = types) (ht : store.token = token) (args : List Value)
    (results : Nat) : (store.enter lift args results).Serves types token := by
  have hreturns : (Pending.enter lift).Returns types := hr
  unfold enter
  dsimp only
  split
  · trivial
  · split
    · trivial
    · split
      · trivial
      · exact ⟨.calling hreturns (.placing _ rfl .base) ht, rfl⟩

theorem callBody_serves (hr : lift.type.results = types) (ht : store.token = token) (words : List UInt32)
    (depth : Nat) : (store.callBody lift words depth).Serves types token := by
  have hreturns : (Pending.body lift).Returns types := hr
  have hbody : store.Serves types token [.body lift] := .calling hreturns .base ht
  unfold callBody
  split
  · trivial
  · exact invoke_serves hbody _ _ _

theorem receive_serves {interface function : String} {type : Component.Signature}
    (hm : store.component.member? interface function = some (.func (.lifted lift) type))
    (args : List Value) (results : Nat) (token : Option Token) :
    (store.receive interface function args results token).Serves lift.type.results token := by
  unfold receive
  rw [hm]
  exact enter_serves rfl rfl args results

/-- Whatever is called is served, if it can be called at all. -/
theorem exists_receive_serves (store : Store) (interface function : String) (args : List Value)
    (results : Nat) (token : Option Token) :
    ∃ types, (store.receive interface function args results token).Serves types token := by
  cases hm : store.component.member? interface function with
  | none =>
    refine ⟨[], ?_⟩
    unfold receive
    rw [hm]
    trivial
  | some e =>
    cases e with
    | func callee type =>
      cases callee with
      | lifted lift => exact ⟨lift.type.results, receive_serves hm args results token⟩
      | imported names =>
        refine ⟨[], ?_⟩
        unfold receive
        rw [hm]
        trivial
    | interface | module | component | type =>
      refine ⟨[], ?_⟩
      unfold receive
      rw [hm]
      trivial

theorem readResults_reads (store : Store) (lift : Component.Lift) (words : List UInt32) :
    Trap.Reads (Value.HaveTypes · lift.type.results) (store.readResults lift words) :=
  Value.ofResults_reads lift.type words

theorem leave_serves (hr : lift.type.results = types) (words : List UInt32) :
    (store.leave lift words).Serves types token := by
  have hreads := store.readResults_reads lift words
  unfold leave
  split
  · trivial
  · next values hv =>
    rw [hv, hr] at hreads
    have htypes : Value.HaveTypes values types := hreads
    dsimp only
    split
    · exact ⟨htypes, rfl⟩
    · split
      · trivial
      · have hcleanup : ({ store with token := none, leavable := false } : Store).Serves types token
            [.cleanup values] := .clearing htypes .base rfl rfl
        exact invoke_serves hcleanup _ _ _

/-! ## Replies -/

theorem acceptReply_serves {base : Pending} (hb : base.Returns types) (hw : base.Waits true waits)
    (ht : store.token = token) (type : Component.Signature) (memory realloc : Option Nat)
    (area : Option UInt32) (values : List Value) (depth : Nat) :
    (store.acceptReply type memory realloc area values waits depth).Serves types token := by
  unfold acceptReply
  split
  · trivial
  · exact ⟨.calling hb (.placing _ rfl hw) ht, rfl⟩

/-! ## Any step -/

theorem advance_serves {thread : Thread} (h : store.Serves types token thread.waits)
    (hn : thread.activity.isBuild = false) : (store.advance thread).Serves types token := by
  obtain ⟨activity, waits, depth⟩ := thread
  dsimp only at h hn
  unfold advance
  cases activity with
  | build steps => cases hn
  | run frame => exact execute_serves h frame depth
  | values values =>
    cases waits with
    | nil => trivial
    | cons pending waits =>
      cases pending with
      | reply type memory realloc area =>
        obtain ⟨ht, base, hb, hw⟩ := h.of_reply
        exact acceptReply_serves hb hw ht _ _ _ _ _ _
      | _ => trivial
  | words words =>
    cases waits with
    | nil => trivial
    | cons pending waits =>
      cases pending with
      | frame frame => exact ⟨h.of_frame, rfl⟩
      | build steps =>
        cases h with
        | calling hb hw =>
          cases hw with
          | base => cases hb
        | clearing _ hw => cases hw
      | placing p => exact place_serves h words depth
      | enter lift =>
        cases h with
        | clearing _ hw => cases hw
        | calling hb hw ht =>
          cases hw with
          | base => exact callBody_serves hb ht words depth
      | body lift =>
        cases h with
        | clearing _ hw => cases hw
        | calling hb hw =>
          cases hw with
          | base => exact leave_serves hb words
      | cleanup values =>
        cases h with
        | calling hb hw =>
          cases hw with
          | base => cases hb
        | clearing hv hw ht =>
          cases hw with
          | base => exact ⟨hv, ht⟩
      | reply type memory realloc area => trivial

end Store

end ComponentHost
