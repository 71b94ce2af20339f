import ComponentHost.Proofs.Machine.Custody
import ComponentHost.Proofs.Machine.Forward
import ComponentHost.Proofs.Machine.Steady
import ComponentHost.Proofs.Machine.Upkeep

/-! # Stores that may be entered

A store may not be entered from when a call gets into it until that call is over, and a call that fails is
never over. So a run leaves the stores behind it as it found them, but for those that it was in when it
failed: these can never be entered again. -/
set_option autoImplicit false

namespace ComponentHost

namespace Store

/-! ## Entering -/

/-- A call for so many results that a store has to let in: it implements the function, and the numbers of
arguments and results are right. -/
def Admits (store : Store) (interface function : String) (args : List Value) (results : Nat) : Prop :=
  ∃ lift type, store.component.member? interface function = some (.func (.lifted lift) type) ∧
    args.length = lift.type.params.length ∧ results = lift.type.results.length

/-- How a store takes a call: it has no such function, or not for such a call, and stays as open as it is; or
the door is shut; or the call gets in and shuts it. -/
inductive Received (store : Store) (interface function : String) (args : List Value) (results : Nat) :
    Progress → Prop where
  | refused {left : Store} {trap : Trap} (ha : ¬ store.Admits interface function args results)
      (he : left.enterable = store.enterable) (ht : trap ≠ .cannotEnter) :
      Received store interface function args results (.trap left trap)
  | shut {left : Store} (ha : store.Admits interface function args results) (hs : store.enterable = false)
      (he : left.enterable = false) : Received store interface function args results (.trap left .cannotEnter)
  | entered {p : Progress} (ha : store.Admits interface function args results)
      (hs : store.enterable = true) (he : p.store.enterable = false)
      (ht : ∀ left, p ≠ .trap left .cannotEnter) : Received store interface function args results p

theorem receive_received (store : Store) (interface function : String) (args : List Value) (results : Nat)
    (token : Option Token) :
    store.Received interface function args results
      (store.receive interface function args results token) := by
  unfold receive
  split
  · next hm => exact .refused (fun ⟨_, _, hm', _⟩ => by cases hm.symm.trans hm') rfl nofun
  · next lift type hm =>
    unfold enter
    dsimp only
    split
    · next hargs =>
      refine .refused (fun ⟨_, _, hm', ha, _⟩ => ?_) rfl nofun
      cases hm.symm.trans hm'
      exact hargs ha
    · next hargs =>
      split
      · next hresults =>
        refine .refused (fun ⟨_, _, hm', _, hr⟩ => ?_) rfl nofun
        cases hm.symm.trans hm'
        exact hresults hr
      · next hresults =>
        have ha : store.Admits interface function args results :=
          ⟨lift, type, hm, not_not.mp hargs, not_not.mp hresults⟩
        split
        · next hs => exact .shut ha (by simpa using hs) (by simpa using hs)
        · next hs =>
          have hs : store.enterable = true := by simpa using hs
          exact .entered ha hs rfl fun _ => nofun
  · next hm => exact .refused (fun ⟨_, _, hm', _⟩ => by cases hm.symm.trans hm') rfl nofun
  · next e hlifted _ hm =>
    refine .refused (fun ⟨lift, type, hm', _⟩ => ?_) rfl nofun
    exact hlifted lift type (Option.some.inj (hm.symm.trans hm'))

end Store

namespace Machine

/-! ## Calls that are asked for -/

section Asks

variable {m m' : Machine} {site provider : Nat} {outer : List Call} {store : Store} {waiting : Thread}
  {interface function : String} {args : List Value} {results : Nat}

/-- The machine in which the innermost call waits for one that it has asked for. -/
def awaiting (m : Machine) (site : Nat) (outer : List Call) (store : Store) (waiting : Thread) : Machine :=
  { (m.behind outer).put site store with calls := ⟨site, waiting⟩ :: outer }

theorem Asks.step_begin (h : m.Ordered)
    (ha : m.Asks site outer store waiting interface function args results)
    (hl : (m.store site).links.lookup interface = some provider) :
    m.step = (m.awaiting site outer store waiting).begin provider fun callee =>
      callee.receive interface function args results store.token := by
  rw [ha.step_eq h hl, alone, ← begin_under]
  rfl

theorem Ordered.provider_lt (h : m.Ordered) (hl : (m.store site).links.lookup interface = some provider) :
    provider < site := h.stores site _ (Entries.mem_of_lookup hl)

theorem awaiting_store_self (h : site < m.stores.size) :
    (m.awaiting site outer store waiting).store site = store := store_put_self (m := m.behind outer) h

theorem awaiting_store_of_ne {other : Nat} (h : other ≠ site) :
    (m.awaiting site outer store waiting).store other = m.store other :=
  store_put_of_ne (m := m.behind outer) h

theorem awaiting_store (h : m.Ordered) (hl : (m.store site).links.lookup interface = some provider) :
    (m.awaiting site outer store waiting).store provider = m.store provider :=
  awaiting_store_of_ne (Nat.ne_of_lt (h.provider_lt hl))

/-- A call is turned away at the door just when the store would let it in, were it open. -/
theorem Asks.cannotEnter_iff (h : m.Ordered)
    (ha : m.Asks site outer store waiting interface function args results)
    (hl : (m.store site).links.lookup interface = some provider) :
    (∃ m', m.step = .failed m' .cannotEnter) ↔
      (m.store provider).Admits interface function args results ∧ (m.store provider).enterable = false := by
  have hreceived := (m.store provider).receive_received interface function args results store.token
  rw [ha.step_begin h hl, begin_eq, awaiting_store h hl]
  generalize (m.store provider).receive interface function args results store.token = p at hreceived ⊢
  cases hreceived with
  | refused hn _ ht =>
    refine iff_of_false ?_ fun hadmits => hn hadmits.1
    rintro ⟨_, hf⟩
    cases hf
    exact ht rfl
  | shut hadmits hs => exact iff_of_true ⟨_, rfl⟩ ⟨hadmits, hs⟩
  | entered _ hs _ ht =>
    refine iff_of_false ?_ fun hshut => Bool.noConfusion (hs.symm.trans hshut.2)
    rintro ⟨_, hf⟩
    cases p with
    | go | call | finish => cases hf
    | trap left trap =>
      cases hf
      exact ht left rfl

end Asks

/-! ## Stores that are left open -/

/-- In a run over so many providers, the calls inside the first one are in stores that were open before and
are shut now, and all other providers are as open as before. -/
structure Shuts (m : Machine) (n : Nat) (isOpen : Nat → Bool) : Prop where
  inside : ∀ call ∈ m.calls, call.site < n →
    isOpen call.site = true ∧ (m.store call.site).enterable = false ∧
      ∃ types token, m.ServesCall types token call
  outside : ∀ site < n, site ∉ m.chain → (m.store site).enterable = isOpen site

/-- The stores that a machine is in when it fails: those that the calls under way are in, and the one that a
call gets into with the step that fails. -/
inductive Occupies (m : Machine) (site : Nat) : Prop where
  | inside (h : site ∈ m.chain)
  | entering {caller : Nat} {outer : List Call} {store : Store} {waiting : Thread}
      {interface function : String} {args : List Value} {results : Nat}
      (ha : m.Asks caller outer store waiting interface function args results)
      (hl : (m.store caller).links.lookup interface = some site)
      (h : (m.store site).Admits interface function args results)

end Machine

/-- What a step leaves of the providers. -/
def Next.Shuts (n : Nat) (isOpen : Nat → Bool) : Next → Prop
  | .more m => m.Shuts n isOpen
  | .done m _ => ∀ site < n, (m.store site).enterable = isOpen site
  | .failed _ _ | .blocked _ => True

namespace Machine

variable {m m' : Machine} {n site provider : Nat} {isOpen : Nat → Bool} {thread thread' : Thread}
  {outer : List Call} {store : Store}

/-- The calls around the innermost one are in other stores. -/
theorem Ordered.apart (h : m.Ordered) (hm : m.calls = ⟨site, thread⟩ :: outer) :
    site < m.stores.size ∧ ∀ call ∈ outer, call.site ≠ site := by
  have hchain := h.chain
  have hbound := h.bound
  rw [Machine.chain, hm, List.map_cons] at hchain hbound
  exact ⟨hbound site List.mem_cons_self, fun call hc =>
    Nat.ne_of_gt ((List.pairwise_cons.mp hchain).1 _ (List.mem_map_of_mem hc))⟩

theorem ServesCall.of_store {types : List Component.ValType} {token : Option Token} {call : Call}
    (h : m.ServesCall types token call) (he : m'.store call.site = m.store call.site) :
    m'.ServesCall types token call := ⟨he ▸ h.1, h.2⟩

/-- The innermost call goes on, behind its door if it has one. -/
theorem Shuts.goes (h : m.Shuts n isOpen) (ho : m.Ordered) (hm : m.calls = ⟨site, thread⟩ :: outer)
    (hs : site < n → store.enterable = false ∧
      ∃ types token, store.Serves types token thread'.waits ∧ thread'.activity.isBuild = false) :
    (m.awaiting site outer store thread').Shuts n isOpen := by
  obtain ⟨hbound, hapart⟩ := ho.apart hm
  have hself : (m.awaiting site outer store thread').store site = store := awaiting_store_self hbound
  constructor
  · intro call hc hn
    rcases List.mem_cons.mp hc with rfl | hc
    · obtain ⟨hopen, -⟩ := h.inside ⟨site, thread⟩ (hm ▸ List.mem_cons_self) hn
      obtain ⟨hshut, types, token, hserves, hb⟩ := hs hn
      refine ⟨hopen, ?_, types, token, ?_, hb⟩ <;> rw [hself] <;> assumption
    · obtain ⟨hopen, hshut, types, token, hserves⟩ := h.inside call (hm ▸ List.mem_cons_of_mem _ hc) hn
      have he : (m.awaiting site outer store thread').store call.site = m.store call.site :=
        awaiting_store_of_ne (hapart call hc)
      exact ⟨hopen, (congrArg Store.enterable he).trans hshut, types, token, hserves.of_store he⟩
  · intro other hn hc
    have hne : other ≠ site := fun he => hc (he ▸ List.mem_cons_self)
    rw [awaiting_store_of_ne hne]
    refine h.outside other hn ?_
    rw [chain, hm]
    exact hc

/-- What the innermost call does in a store that it has shut. -/
theorem Shuts.advances (h : m.Shuts n isOpen) (hm : m.calls = ⟨site, thread⟩ :: outer) (hn : site < n) :
    isOpen site = true ∧ (m.store site).enterable = false ∧
      (m.store site).Leaving (¬ thread.Fits) ((m.store site).advance thread) ∧
      ∃ types token, ((m.store site).advance thread).Serves types token := by
  obtain ⟨hopen, hshut, types, token, hserves, hb⟩ := h.inside _ (hm ▸ List.mem_cons_self) hn
  exact ⟨hopen, hshut, Store.advance_leaving _ hb, types, token, Store.advance_serves hserves hb⟩

/-- The innermost call is over, and the store that it was in is open again. -/
theorem Shuts.finishes (h : m.Shuts n isOpen) (ho : m.Ordered) (hm : m.calls = ⟨site, thread⟩ :: outer)
    (hs : site < n → store.enterable = isOpen site) (values : List Value) :
    (((m.behind outer).put site store).reply values).Shuts n isOpen := by
  obtain ⟨hbound, hapart⟩ := ho.apart hm
  have hother : ∀ other ≠ site, ((m.behind outer).put site store).store other = m.store other :=
    fun other hne => store_put_of_ne hne
  have hleft : ∀ other < n, other ∉ outer.map Call.site →
      (((m.behind outer).put site store).store other).enterable = isOpen other := by
    intro other hn hc
    by_cases he : other = site
    · subst he
      rw [store_put_self (m := m.behind outer) hbound]
      exact hs hn
    · rw [hother other he]
      refine h.outside other hn ?_
      rw [chain, hm]
      exact List.not_mem_cons_of_ne_of_not_mem he hc
  unfold reply
  cases outer with
  | nil => exact fun other hn => hleft other hn List.not_mem_nil
  | cons back outer =>
    refine ⟨fun call hc hn => ?_, fun other hn hc => hleft other hn hc⟩
    have hinside : ∀ call ∈ back :: outer, call.site < n →
        isOpen call.site = true ∧ (((m.behind (back :: outer)).put site store).store call.site).enterable = false ∧
          ∃ types token, ((m.behind (back :: outer)).put site store).ServesCall types token call := by
      intro call hc hn
      obtain ⟨hopen, hshut, types, token, hserves⟩ := h.inside call (hm ▸ List.mem_cons_of_mem _ hc) hn
      have he := hother call.site (hapart call hc)
      exact ⟨hopen, he ▸ hshut, types, token, hserves.of_store he⟩
    rcases List.mem_cons.mp hc with rfl | hc
    · obtain ⟨hopen, hshut, types, token, hserves, -⟩ := hinside back List.mem_cons_self hn
      exact ⟨hopen, hshut, types, token, hserves, rfl⟩
    · exact hinside call (List.mem_cons_of_mem _ hc) hn

/-- A call that gets into a store shuts it. -/
theorem Shuts.begins (h : m.Shuts n isOpen) (hp : provider < m.stores.size) (hc : provider ∉ m.chain)
    (interface function : String) (args : List Value) (results : Nat) (token : Option Token) :
    (m.begin provider fun callee => callee.receive interface function args results token).Shuts n isOpen := by
  have hreceived := (m.store provider).receive_received interface function args results token
  obtain ⟨types, hserves⟩ := (m.store provider).exists_receive_serves interface function args results token
  rw [begin_eq]
  generalize (m.store provider).receive interface function args results token = p at hreceived hserves ⊢
  cases p with
  | call | finish | trap => trivial
  | go store thread =>
    cases hreceived with
    | entered _ hs he =>
      constructor
      · intro call hc' hn
        rcases List.mem_cons.mp hc' with rfl | hc'
        · refine ⟨(h.outside provider hn hc).symm.trans hs, ?_, types, token, ?_, hserves.2⟩
          · exact (congrArg Store.enterable (store_put_self hp)).trans he
          · have hself : (m.put provider store).store provider = store := store_put_self hp
            exact hself.symm ▸ hserves.1
        · obtain ⟨hopen, hshut, types, token, hserves⟩ := h.inside call hc' hn
          have he : (m.put provider store).store call.site = m.store call.site :=
            store_put_of_ne fun he => hc (he ▸ List.mem_map_of_mem hc')
          exact ⟨hopen, (congrArg Store.enterable he).trans hshut, types, token, hserves.of_store he⟩
      · intro other hn ho
        obtain ⟨hne, hrest⟩ := not_or.mp (List.mem_cons.not.mp ho)
        exact (congrArg Store.enterable (store_put_of_ne hne)).trans (h.outside other hn hrest)

/-- Every step keeps what a run has shut and left open. -/
theorem step_shuts (ho : m.Ordered) (h : m.Shuts n isOpen) : m.step.Shuts n isOpen := by
  have hstep := m.step_stepped
  generalize m.step = next at hstep ⊢
  cases hstep with
  | rests hm =>
    refine fun site hn => h.outside site hn ?_
    rw [chain, hm]
    exact List.not_mem_nil
  | stops => trivial
  | goes hm _ ha =>
    refine h.goes ho hm fun hn => ?_
    obtain ⟨-, hshut, hleaving, types, token, hserves⟩ := h.advances hm hn
    rw [ha] at hleaving hserves
    cases hleaving with
    | stays hp => exact ⟨hp.enterable.trans hshut, types, token, hserves⟩
  | finishes hm _ ha =>
    refine h.finishes ho hm (fun hn => ?_) _
    obtain ⟨hopen, -, hleaving, -⟩ := h.advances hm hn
    rw [ha] at hleaving
    cases hleaving with
    | stays hp => exact absurd rfl (hp.unfinished _ _)
    | ends he => exact he.trans hopen.symm
  | @asks site provider _ thread' outer store _ _ _ _ hm _ ha hl =>
    have hgone : (m.awaiting site outer store thread').Shuts n isOpen := by
      refine h.goes ho hm fun hn => ?_
      obtain ⟨-, hshut, hleaving, types, token, hserves⟩ := h.advances hm hn
      rw [ha] at hleaving hserves
      cases hleaving with
      | stays hp => exact ⟨hp.enterable.trans hshut, types, token, hserves.1, hserves.2.1⟩
    unfold forward
    split
    · trivial
    · next hc =>
      refine hgone.begins ?_ (by simpa [awaiting] using hc) _ _ _ _ _
      rw [awaiting, size_put]
      exact Nat.lt_trans (ho.provider_lt hl) (ho.apart hm).1

/-! ## Runs that fail -/

theorem stop_enterable (m : Machine) (site other : Nat) (store : Store) (trap : Trap) :
    ((m.stop site store trap).machine.store other).enterable =
      if other = site ∧ site < m.stores.size then store.enterable else (m.store other).enterable := by
  have hunwind : ((m.stop site store trap).machine.store other).enterable =
      ((m.put site { store with token := none }).store other).enterable := by
    rw [stop, Next.machine, unwind_store]
    split <;> rfl
  rw [hunwind, store_put]
  split <;> rfl

/-- A step that fails opens no store, and shuts only the one that a call gets into with it. -/
theorem Shuts.failed (h : m.Shuts n isOpen) (ho : m.Ordered) {trap : Trap} (hs : m.step = .failed m' trap)
    {other : Nat} (hn : other < n) :
    (m'.store other).enterable = (m.store other).enterable ∨
      (m'.store other).enterable = false ∧ m.Occupies other := by
  have hkeeps : ∀ {site : Nat} {thread : Thread} {outer : List Call} {p : Progress},
      m.calls = ⟨site, thread⟩ :: outer → (m.store site).advance thread = p →
      (∀ left values, p ≠ .finish left values) → site < n → p.store.enterable = (m.store site).enterable := by
    intro site thread outer p hm hp hunfinished hsite
    obtain ⟨-, -, hleaving, -⟩ := h.advances hm hsite
    rw [hp] at hleaving
    cases hleaving with
    | stays hp => exact hp.enterable
    | ends => exact absurd rfl (hunfinished _ _)
  have hm' : m.step.machine = m' := by rw [hs]; rfl
  have hstep := m.step_stepped
  generalize hnext : m.step = next at hstep hs hm'
  cases hstep with
  | rests | goes => cases hs
  | finishes =>
    unfold reply at hs
    split at hs <;> cases hs
  | @stops site thread outer store _ hm _ hstop =>
    left
    rw [← hm', stop_enterable (m.behind outer)]
    split
    · next he =>
      obtain ⟨rfl, -⟩ := he
      rcases hstop with ⟨rfl, -⟩ | hstop
      · rfl
      · generalize hp : (m.store other).advance thread = p at hstop
        cases hstop with
        | trap => exact hkeeps hm hp (fun _ _ => nofun) hn
        | call => exact hkeeps hm hp (fun _ _ => nofun) hn
    · rfl
  | @asks site provider thread thread' outer store interface function args results hm _ ha hl hi =>
    have hasks : m.Asks site outer store thread' interface function args results := ⟨thread, hm, hi, ha⟩
    have hbegin := hasks.step_begin ho hl
    rw [hnext, hs, begin_eq, awaiting_store ho hl] at hbegin
    have hreceived := (m.store provider).receive_received interface function args results store.token
    generalize (m.store provider).receive interface function args results store.token = p at hreceived hbegin
    -- where it fails, the store of the provider is as the call has left it, and all others are as they were
    have hleft : (m'.store other).enterable =
        if other = provider ∧ provider < (m.awaiting site outer store thread').stores.size then p.store.enterable
        else (m.store other).enterable := by
      have hwaiting : ((m.awaiting site outer store thread').store other).enterable = (m.store other).enterable := by
        by_cases he : other = site
        · subst he
          rw [awaiting_store_self (ho.apart hm).1]
          exact hkeeps hm ha (fun _ _ => nofun) hn
        · exact congrArg Store.enterable (awaiting_store_of_ne he)
      cases p with
      | go => cases hbegin
      | call left | finish left | trap left =>
        rw [← hwaiting, ← stop_enterable]
        exact congrArg (fun next => (next.machine.store other).enterable) hbegin
    by_cases he : other = provider ∧ provider < (m.awaiting site outer store thread').stores.size
    · rw [if_pos he] at hleft
      obtain ⟨rfl, -⟩ := he
      cases hreceived with
      | refused _ he => exact .inl (hleft.trans he)
      | shut hadmits _ he => exact .inr ⟨hleft.trans he, .entering hasks hl hadmits⟩
      | entered hadmits _ he => exact .inr ⟨hleft.trans he, .entering hasks hl hadmits⟩
    · rw [if_neg he] at hleft
      exact .inl hleft

/-- A call that gets into a store with a step that fails leaves it shut. -/
theorem Asks.entered_shut (ho : m.Ordered) {caller : Nat} {waiting : Thread} {interface function : String}
    {args : List Value} {results : Nat}
    (ha : m.Asks caller outer store waiting interface function args results)
    (hl : (m.store caller).links.lookup interface = some provider)
    (hadmits : (m.store provider).Admits interface function args results) {trap : Trap}
    (hs : m.step = .failed m' trap) : (m'.store provider).enterable = false := by
  have hbegin := ha.step_begin ho hl
  rw [hs, begin_eq, awaiting_store ho hl] at hbegin
  have hreceived := (m.store provider).receive_received interface function args results store.token
  generalize (m.store provider).receive interface function args results store.token = p at hreceived hbegin
  have hsize : provider < (m.awaiting caller outer store waiting).stores.size := by
    obtain ⟨thread, hm, -⟩ := ha.thread
    rw [awaiting, size_put]
    exact Nat.lt_trans (ho.provider_lt hl) (ho.apart hm).1
  have hleft : (m'.store provider).enterable = p.store.enterable := by
    cases p with
    | go => cases hbegin
    | call left | finish left | trap left =>
      have hstop := congrArg (fun next => (next.machine.store provider).enterable) hbegin
      refine hstop.trans ((stop_enterable _ _ _ _ _).trans ?_)
      rw [if_pos ⟨rfl, hsize⟩]
      rfl
  cases hreceived with
  | refused hn => exact absurd hadmits hn
  | shut _ _ he => exact hleft.trans he
  | entered _ _ he => exact hleft.trans he

/-- When a step fails, the stores that cannot be entered behind it are those that could not be before the run,
and those that the machine is in. -/
theorem Shuts.failed_iff (h : m.Shuts n isOpen) (ho : m.Ordered) {trap : Trap}
    (hs : m.step = .failed m' trap) (hn : site < n) :
    (m'.store site).enterable = false ↔ isOpen site = false ∨ m.Occupies site := by
  have hinside : site ∈ m.chain → isOpen site = true ∧ (m.store site).enterable = false := by
    intro hc
    obtain ⟨call, hcall, rfl⟩ := List.mem_map.mp hc
    obtain ⟨hopen, hshut, -⟩ := h.inside call hcall hn
    exact ⟨hopen, hshut⟩
  have hstays : (m.store site).enterable = false → (m'.store site).enterable = false := by
    intro hshut
    rcases h.failed ho hs hn with he | ⟨he, -⟩
    · exact he.trans hshut
    · exact he
  constructor
  · intro hshut
    rcases h.failed ho hs hn with he | ⟨-, hoccupies⟩
    · by_cases hc : site ∈ m.chain
      · exact .inr (.inside hc)
      · exact .inl (((h.outside site hn hc).symm.trans he.symm).trans hshut)
    · exact .inr hoccupies
  · rintro (hshut | hc | ⟨ha, hl, hadmits⟩)
    · by_cases hc : site ∈ m.chain
      · exact hstays (hinside hc).2
      · exact hstays ((h.outside site hn hc).trans hshut)
    · exact hstays (hinside hc).2
    · exact ha.entered_shut ho hl hadmits hs

end Machine

/-- A run fails at a machine that is in a store. -/
def Next.FailsIn (start : Next) (site : Nat) : Prop :=
  ∃ m m' trap, start.Passes m ∧ m.step = .failed m' trap ∧ m.Occupies site

/-- The store at a site is open, as long as no step fails. -/
def Next.Opens (site : Nat) : Next → Prop
  | .more m | .done m _ => (m.store site).enterable = true
  | .failed _ _ | .blocked _ => True

namespace Machine

variable {m m' : Machine} {n site : Nat} {isOpen : Nat → Bool} {start : Next} {fuel : Nat} {visit : Visit}

theorem Steps.last_unique {k k' : Machine} {steps steps' : Nat} (h : m.Steps steps k) (h' : m.Steps steps' k')
    (hk : ∀ next, k.step ≠ .more next) (hk' : ∀ next, k'.step ≠ .more next) : k = k' := by
  induction steps generalizing m steps' with
  | zero =>
    cases h
    cases steps' with
    | zero => exact h'.symm
    | succ steps' =>
      obtain ⟨next, hnext, -⟩ := h'
      exact absurd hnext (hk next)
  | succ steps ih =>
    obtain ⟨next, hnext, h⟩ := h
    cases steps' with
    | zero =>
      cases h'
      exact absurd hnext (hk' next)
    | succ steps' =>
      obtain ⟨next', hnext', h'⟩ := h'
      cases hnext.symm.trans hnext'
      exact ih h h'

/-- A run has one last machine. -/
theorem last_unique {last other : Machine} (hl : start.Passes last) (ho : start.Passes other)
    (hlast : ∀ next, last.step ≠ .more next) (hother : ∀ next, other.step ≠ .more next) : last = other := by
  obtain ⟨first, steps, rfl, hsteps⟩ := hl
  obtain ⟨first', steps', hf, hsteps'⟩ := ho
  cases hf
  exact hsteps.last_unique hsteps' hlast hother

theorem failsIn_iff {last : Machine} {trap : Trap} (hl : start.Passes last) (hs : last.step = .failed m' trap) :
    start.FailsIn site ↔ last.Occupies site := by
  refine ⟨?_, fun h => ⟨last, m', trap, hl, hs, h⟩⟩
  rintro ⟨other, left, reason, ho, hfailed, hoccupies⟩
  rw [last_unique hl ho (by simp [hs]) (by simp [hfailed])]
  exact hoccupies

theorem not_failsIn_of_done {last : Machine} {values : List Value} (hl : start.Passes last)
    (hs : last.step = .done m' values) : ¬ start.FailsIn site := by
  rintro ⟨other, left, reason, ho, hfailed, -⟩
  rw [last_unique hl ho (by simp [hs]) (by simp [hfailed]), hfailed] at hs
  cases hs

/-- A run that comes to values fails nowhere. -/
theorem not_failsIn_of_ok (h : finish fuel start = .ok visit) {values : List Value}
    (hr : visit.result = .ok values) : ¬ start.FailsIn site := by
  rcases finish_cases (P := fun next => next = start ∨ ∃ last, start.Passes last ∧ last.step = next)
      (fun m hm _ => .inr ⟨m, hm, rfl⟩) (.inl rfl) h with ⟨m, values, hlast, rfl⟩ | ⟨m, trap, -, rfl⟩
  · rcases hlast with rfl | ⟨last, hl, hs⟩
    · rintro ⟨_, _, _, ⟨_, _, hf, -⟩, -⟩
      cases hf
    · exact not_failsIn_of_done hl hs
  · cases hr

/-- What a run leaves of its providers: those that it failed in are shut, like those that were before. -/
theorem finish_shuts (hpasses : ∀ m, start.Passes m → m.Ordered) (hstart : start.Shuts n isOpen)
    (hdone : ∀ m values, start ≠ .done m values)
    (hfailed : ∀ m trap, start = .failed m trap → ∀ site < n, (m.store site).enterable = isOpen site)
    (hf : finish fuel start = .ok visit) :
    ∃ m : Machine, visit = m.visit visit.result ∧
      ∀ site < n, (m.store site).enterable = false ↔ isOpen site = false ∨ start.FailsIn site := by
  have hshuts : ∀ m, start.Passes m → m.Shuts n isOpen := fun m hm =>
    hm.induction (P := Next.Shuts n isOpen) (fun m hm h => step_shuts (hpasses m hm) h) hstart
  have hnever : ∀ m trap, start = .failed m trap → ∀ site, ¬ start.FailsIn site := by
    rintro m trap rfl site ⟨_, _, _, ⟨_, _, hf, -⟩, -⟩
    cases hf
  rcases finish_cases (P := fun next => next.Shuts n isOpen ∧
      (next = start ∨ ∃ last, start.Passes last ∧ last.step = next))
      (fun m hm h => ⟨step_shuts (hpasses m hm) h.1, .inr ⟨m, hm, rfl⟩⟩) ⟨hstart, .inl rfl⟩ hf with
    ⟨m, values, ⟨hopen, hlast⟩, rfl⟩ | ⟨m, trap, ⟨-, hlast⟩, rfl⟩
  · refine ⟨m, rfl, fun site hn => ?_⟩
    rcases hlast with hstart | ⟨last, hl, hs⟩
    · exact absurd hstart.symm (hdone m values)
    · rw [hopen site hn, or_iff_left (not_failsIn_of_done hl hs)]
  · refine ⟨m, rfl, fun site hn => ?_⟩
    rcases hlast with hstart | ⟨last, hl, hs⟩
    · rw [hfailed m trap hstart.symm site hn, or_iff_left (hnever m trap hstart.symm site)]
    · rw [failsIn_iff hl hs]
      exact (hshuts last hl).failed_iff (hpasses last hl) hs hn

/-! ## Instances and invocations -/

/-- Whether each of some stores may be entered. -/
def areOpen (stores : Array Store) (site : Nat) : Bool := (stores.getD site default).enterable

theorem areOpen_push (stores : Array Store) (store : Store) (site : Nat) :
    areOpen (stores.push store) site = if site = stores.size then store.enterable else areOpen stores site := by
  rw [areOpen, areOpen, Array.getD_eq_getD_getElem?, Array.getD_eq_getD_getElem?, Array.getElem?_push]
  split <;> rfl

theorem visit_areOpen {m : Machine} {result : Except Trap (List Value)}
    (hs : site < (m.visit result).providers.size) :
    areOpen (m.visit result).providers site = (m.store site).enterable := by
  have hpop : site < m.stores.pop.size := hs
  rw [Array.size_pop] at hpop
  rw [areOpen, visit, Machine.store, Array.getD_eq_getD_getElem?, Array.getD_eq_getD_getElem?,
    Array.getElem?_pop, if_pos hpop]

section Runs

variable {providers : Array Store} {store : Store} {signals : Signals}

/-- Before a run starts, the providers are as open as they are. -/
theorem atRest_areOpen (hs : site < providers.size) :
    ((atRest providers store signals).store site).enterable = areOpen providers site :=
  (areOpen_push providers store site).trans (if_neg (Nat.ne_of_lt hs))

theorem begin_opening (providers : Array Store) (store : Store) (signals : Signals) (first : Store → Progress) :
    let start := (atRest providers store signals).begin providers.size first
    start.Shuts providers.size (areOpen providers) ∧ (∀ m values, start ≠ .done m values) ∧
      ∀ m trap, start = .failed m trap → ∀ site < providers.size, (m.store site).enterable = areOpen providers site := by
  have hput : ∀ left : Store, ∀ site < providers.size,
      (((atRest providers store signals).put providers.size left).store site).enterable = areOpen providers site := by
    intro left site hs
    rw [store_put_of_ne (Nat.ne_of_lt hs), atRest_areOpen hs]
  have hstop : ∀ left trap, ∀ m trap', (atRest providers store signals).stop providers.size left trap = .failed m trap' →
      ∀ site < providers.size, (m.store site).enterable = areOpen providers site := by
    intro left trap m trap' hm site hs
    have hstopped := stop_enterable (atRest providers store signals) providers.size site left trap
    rw [hm, if_neg fun he => Nat.ne_of_lt hs he.1] at hstopped
    exact hstopped.trans (atRest_areOpen hs)
  dsimp only
  rw [begin_eq]
  cases first ((atRest providers store signals).store providers.size) with
  | go left thread =>
    refine ⟨⟨fun call hc hn => ?_, fun site hs _ => hput left site hs⟩, fun _ _ => nofun, fun _ _ => nofun⟩
    rw [List.mem_singleton.mp hc] at hn
    exact absurd hn (Nat.lt_irrefl _)
  | call left | finish left | trap left =>
    exact ⟨trivial, fun _ _ => nofun, fun m trap hm site hs => hstop left _ m trap hm site hs⟩

/-- A run shuts the providers that it fails in, and leaves the others as they were. -/
theorem run_shuts (ho : InOrder providers) (hl : ∀ l ∈ store.links, l.2 < providers.size)
    {first : Store → Progress} (hfirst : ∀ store, (first store).store.wiring = store.wiring)
    (h : finish fuel ((atRest providers store signals).begin providers.size first) = .ok visit) {site : Nat}
    (hs : site < providers.size) :
    areOpen visit.providers site = false ↔
      areOpen providers site = false ∨ ((atRest providers store signals).begin providers.size first).FailsIn site := by
  obtain ⟨hshuts, hdone, hfailed⟩ := begin_opening providers store signals first
  obtain ⟨m, hm, hleft⟩ := finish_shuts (fun m hm => (begin_passes ho hl hfirst hm).1) hshuts hdone hfailed h
  have hsize : visit.providers.size = providers.size := by
    simpa using congrArg Array.size (begin_leaves hfirst h).providers
  rw [hm, visit_areOpen (by rw [← hm, hsize]; exact hs)]
  exact hleft site hs

/-- A call of a provider is turned away when the provider was shut before the run. -/
theorem Asks.turned_away_iff (ho : InOrder providers) (hl : ∀ l ∈ store.links, l.2 < providers.size)
    {first : Store → Progress} (hfirst : ∀ store, (first store).store.wiring = store.wiring) {m : Machine}
    (hm : ((atRest providers store signals).begin providers.size first).Passes m) {site provider : Nat}
    {outer : List Call} {left : Store} {waiting : Thread} {interface function : String} {args : List Value}
    {results : Nat} (ha : m.Asks site outer left waiting interface function args results)
    (hp : (m.store site).links.lookup interface = some provider) :
    provider < providers.size ∧ ((∃ m', m.step = .failed m' .cannotEnter) ↔
      (m.store provider).Admits interface function args results ∧ areOpen providers provider = false) := by
  obtain ⟨hordered, hwiring⟩ := begin_passes ho hl hfirst hm
  have hshuts : m.Shuts providers.size (areOpen providers) :=
    hm.induction (P := Next.Shuts providers.size (areOpen providers))
      (fun m hm h => step_shuts (begin_passes ho hl hfirst hm).1 h) (begin_opening _ _ _ _).1
  obtain ⟨thread, hcalls, -⟩ := ha.thread
  have hsite : site < m.stores.size := (hordered.apart hcalls).1
  have hsize : m.stores.size = providers.size + 1 := by simpa [wiring] using congrArg Array.size hwiring
  have hlt := hordered.provider_lt hp
  refine ⟨by omega, ?_⟩
  rw [ha.cannotEnter_iff hordered hp, hshuts.outside provider (by omega) (hordered.not_mem_chain hcalls hp)]

/-! ## New instances -/

/-- A store that nothing is linked to stays open, whatever runs in it. -/
theorem step_opens (ho : m.Ordered) (hlast : m.stores.size = site + 1) (h : (m.store site).enterable = true) :
    m.step.Opens site := by
  have hput : ∀ {caller : Nat} {thread : Thread} {outer : List Call} {p : Progress},
      m.calls = ⟨caller, thread⟩ :: outer → (m.store caller).advance thread = p →
      (((m.behind outer).put caller p.store).store site).enterable = true := by
    intro caller thread outer p hm hp
    rw [store_put]
    split
    · next he =>
      obtain ⟨rfl, -⟩ := he
      rw [← hp]
      exact Store.advance_open h thread
    · exact h
  have hstep := m.step_stepped
  generalize m.step = next at hstep ⊢
  cases hstep with
  | rests => exact h
  | stops => trivial
  | goes hm _ ha => exact hput hm ha
  | finishes hm _ ha =>
    unfold reply
    split <;> exact hput hm ha
  | @asks caller provider _ waiting outer store interface function args results hm _ ha hl =>
    have hwaiting := hput hm ha
    unfold forward
    split
    · trivial
    · rw [begin_eq]
      have hne : site ≠ provider := by
        have := ho.provider_lt hl
        have := (ho.apart hm).1
        omega
      split
      · exact (congrArg Store.enterable (store_put_of_ne hne)).trans hwaiting
      · trivial
      · trivial
      · trivial

/-- An instance that has been made may be entered. -/
theorem instantiate_open (ho : InOrder providers) (hl : ∀ l ∈ store.links, l.2 < providers.size)
    (hopen : store.enterable = true) (h : instantiate fuel providers store = .ok visit)
    {values : List Value} (hr : visit.result = .ok values) : visit.store.enterable = true := by
  have hsize : (making providers store).machine.stores.size = providers.size + 1 := by
    simp [making, begin_eq, Next.machine, size_put, atRest]
  have hfirst : (making providers store).Opens providers.size := by
    have hself : (atRest providers store .quiet).store providers.size = store := atRest_store ..
    rw [making, begin_eq, hself]
    refine (congrArg Store.enterable (store_put_self ?_)).trans hopen
    simp [atRest]
  rcases finish_cases (P := fun next => next.Opens providers.size ∧
      next.machine.stores.size = providers.size + 1)
      (fun m hm h => ⟨step_opens (begin_passes ho hl (fun _ => rfl) hm).1 h.2 h.1,
        m.step_persists.size.trans h.2⟩) ⟨hfirst, hsize⟩ h with
    ⟨m, values, ⟨hm, hs⟩, rfl⟩ | ⟨m, trap, -, rfl⟩
  · have hlast : (m.visit (.ok values)).store = m.store providers.size := by
      have hs : m.stores.size = providers.size + 1 := hs
      rw [visit, Machine.store, Array.back?_eq_getElem?, Array.getD_eq_getD_getElem?, hs]
      rfl
    rw [hlast]
    exact hm
  · cases hr

end Runs

end Machine

end ComponentHost
