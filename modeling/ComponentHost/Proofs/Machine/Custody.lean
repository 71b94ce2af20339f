import ComponentHost.Proofs.Machine.Serving
import ComponentHost.Proofs.Machine.Signals

/-! # The token along a chain of calls

While a call goes on that was made with a token, every store in the chain of calls has that token until its
own call has come to its values, and no other store has one. So what a token interrupts is a call that was
made with it; and when the call is over, no store has a token, whatever it came to. -/
set_option autoImplicit false

namespace ComponentHost

/-- Whether a call is still in the function that it calls, which has not returned. -/
def Thread.isCalling (thread : Thread) : Bool :=
  match thread.waits.getLast? with
  | some (.enter _) | some (.body _) => true
  | _ => false

theorem Pending.Waits.getLast? {base : Pending} {mayCall : Bool} {waits : List Pending}
    (h : base.Waits mayCall waits) : waits.getLast? = some base := by
  induction h with
  | base => rfl
  | frame _ _ ih | reply _ _ _ _ _ _ ih | placing _ _ _ ih => rw [List.getLast?_cons, ih, Option.getD_some]

/-- What waits for arguments or results at its bottom is still in the function that it calls. -/
theorem Pending.Waits.isCalling {types : List Component.ValType} {base : Pending} {mayCall : Bool} {thread : Thread}
    (h : base.Waits mayCall thread.waits) (hb : base.Returns types) : thread.isCalling = true := by
  rw [Thread.isCalling, h.getLast?]
  cases base <;> first | cases hb; rfl | cases hb

theorem Pending.Waits.not_isCalling {values : List Value} {mayCall : Bool} {thread : Thread}
    (h : (Pending.cleanup values).Waits mayCall thread.waits) : thread.isCalling = false := by
  rw [Thread.isCalling, h.getLast?]

/-- A store has the token of a call that is in it until the function has returned. -/
theorem Store.Serves.token_eq {types : List Component.ValType} {token : Option Token} {store : Store}
    {thread : Thread} (h : store.Serves types token thread.waits) :
    store.token = if thread.isCalling then token else none := by
  cases h with
  | calling hb hw ht => rw [if_pos (hw.isCalling hb), ht]
  | clearing _ hw ht => rw [if_neg (by simp [hw.not_isCalling]), ht]

namespace Machine

variable {m m' : Machine} {token : Option Token} {types inner : List Component.ValType}
  {site other : Nat} {store : Store}

/-! ## Stores and their tokens -/

theorem store_put_of_ne (h : other ≠ site) : (m.put site store).store other = m.store other := by
  rw [store_put, if_neg fun he => h he.1]

theorem store_put_self (h : site < m.stores.size) : (m.put site store).store site = store := by
  rw [store_put, if_pos ⟨rfl, h⟩]

/-- No store has a token. -/
def Idle (m : Machine) : Prop := ∀ site, (m.store site).token = none

theorem unwind_token (m : Machine) (site : Nat) :
    (m.unwind.store site).token = if site ∈ m.chain then none else (m.store site).token := by
  rw [unwind_store]
  split <;> rfl

theorem Idle.visit (h : m.Idle) (result : Except Trap (List Value)) :
    (m.visit result).store.token = none ∧ ∀ p ∈ (m.visit result).providers, p.token = none :=
  forall_visit (P := fun store => store.token = none) (fun _ => rfl) (forall_mem_stores h) result

/-! ## Chains that are served -/

/-- A call is served by the store that it is in. -/
def ServesCall (m : Machine) (types : List Component.ValType) (token : Option Token) (call : Call) : Prop :=
  (m.store call.site).Serves types token call.thread.waits ∧ call.thread.activity.isBuild = false

/-- A chain of calls that are all served with one token; the first of them comes to values of types. -/
inductive ServesChain (m : Machine) (types : List Component.ValType) (token : Option Token) :
    List Call → Prop where
  | first {call : Call} (h : m.ServesCall types token call) : ServesChain m types token [call]
  | inside {inner : List Component.ValType} {call : Call} {outer : List Call}
      (h : m.ServesCall inner token call) (ho : ServesChain m types token outer) :
      ServesChain m types token (call :: outer)

/-- All calls under way are served, and stores that no call is in have no token. -/
structure Serves (m : Machine) (types : List Component.ValType) (token : Option Token) : Prop where
  calls : m.ServesChain types token m.calls
  idle : ∀ site ∉ m.chain, (m.store site).token = none

end Machine

/-- What a step comes to while a call goes on. -/
def Next.Serves (types : List Component.ValType) (token : Option Token) : Next → Prop
  | .more m => m.Serves types token
  | .done m values => m.Idle ∧ Value.HaveTypes values types
  | .failed m _ => m.Idle
  | .blocked _ => True

namespace Machine

variable {m m' : Machine} {token : Option Token} {types inner : List Component.ValType}
  {site : Nat} {store : Store} {thread : Thread} {outer : List Call}

theorem ServesChain.keep {calls : List Call} (h : m.ServesChain types token calls)
    (he : ∀ call ∈ calls, m'.store call.site = m.store call.site) : m'.ServesChain types token calls := by
  have hcall : ∀ {types : List Component.ValType} {call : Call}, m'.store call.site = m.store call.site →
      m.ServesCall types token call → m'.ServesCall types token call := by
    rintro types call he ⟨hs, hb⟩
    exact ⟨he ▸ hs, hb⟩
  induction h with
  | first h => exact .first (hcall (he _ List.mem_cons_self) h)
  | inside h ho ih =>
    obtain ⟨hfirst, hrest⟩ := List.forall_mem_cons.mp he
    exact .inside (hcall hfirst h) (ih hrest)

/-- What a call is made inside of: nothing, so that it comes to the values of the chain, or calls that
are served. -/
def ServesAround (m : Machine) (types : List Component.ValType) (token : Option Token)
    (inner : List Component.ValType) (outer : List Call) : Prop :=
  outer = [] ∧ inner = types ∨ m.ServesChain types token outer

theorem ServesAround.keep (h : m.ServesAround types token inner outer)
    (he : ∀ call ∈ outer, m'.store call.site = m.store call.site) :
    m'.ServesAround types token inner outer :=
  h.imp_right fun h => h.keep he

theorem ServesChain.cons {call : Call} (h : m.ServesCall inner token call)
    (ho : m.ServesAround types token inner outer) : m.ServesChain types token (call :: outer) := by
  rcases ho with ⟨rfl, rfl⟩ | ho
  · exact .first h
  · exact .inside h ho

theorem ServesChain.uncons {call : Call} (h : m.ServesChain types token (call :: outer)) :
    ∃ inner, m.ServesCall inner token call ∧ m.ServesAround types token inner outer := by
  cases h with
  | first h => exact ⟨types, h, .inl ⟨rfl, rfl⟩⟩
  | @inside inner _ _ h ho => exact ⟨inner, h, .inr ho⟩

theorem stop_serves (trap : Trap) (hi : ∀ other ∉ m.chain, other ≠ site → (m.store other).token = none) :
    (m.stop site store trap).Serves types token := by
  intro other
  rw [unwind_token]
  split
  · rfl
  · next hn =>
    by_cases he : other = site
    · subst he
      by_cases hs : other < m.stores.size
      · rw [store_put_self hs]
      · have hout : (m.put other { store with token := none }).stores.size ≤ other := by
          rw [size_put]
          exact Nat.le_of_not_lt hs
        rw [Machine.store, Array.getD_eq_getD_getElem?, Array.getElem?_eq_none hout]
        rfl
    · rw [store_put_of_ne he]
      exact hi other hn he

/-- A call that begins is served inside the calls under way. -/
theorem begin_serves {start : Store → Progress} (hi : ∀ other ∉ m.chain, (m.store other).token = none)
    (hsize : site < m.stores.size) (hsite : site ∉ m.chain)
    (hstart : (start (m.store site)).Serves inner token)
    (hcalls : m.ServesAround types token inner m.calls) :
    (m.begin site start).Serves types token := by
  have hstop : ∀ store trap, (m.stop site store trap).Serves types token := fun store trap =>
    stop_serves trap fun other ho _ => hi other ho
  rw [begin_eq]
  cases hp : start (m.store site) with
  | call store | finish store | trap store => exact hstop store _
  | go store thread =>
    rw [hp] at hstart
    have hcall : (m.put site store).ServesCall inner token ⟨site, thread⟩ := by
      refine ⟨?_, hstart.2⟩
      rw [store_put_self hsize]
      exact hstart.1
    constructor
    · refine .cons hcall (hcalls.keep fun call hc => store_put_of_ne ?_)
      rintro rfl
      exact hsite (List.mem_map_of_mem hc)
    · intro other ho
      obtain ⟨hne, hrest⟩ := not_or.mp (List.mem_cons.not.mp ho)
      exact (congrArg Store.token (store_put_of_ne hne)).trans (hi other hrest)

/-! ## Steps -/

/-- How the innermost call is served, in a store that no other call is in. -/
structure Innermost (m : Machine) (types : List Component.ValType) (token : Option Token)
    (inner : List Component.ValType) (site : Nat) (thread : Thread) (outer : List Call) : Prop where
  call : m.ServesCall inner token ⟨site, thread⟩
  around : m.ServesAround types token inner outer
  bound : site < m.stores.size
  apart : ∀ call ∈ outer, call.site ≠ site
  idle : ∀ other ∉ outer.map Call.site, other ≠ site → (m.store other).token = none

theorem Serves.innermost (h : m.Serves types token) (ho : m.Ordered)
    (hm : m.calls = ⟨site, thread⟩ :: outer) : ∃ inner, m.Innermost types token inner site thread outer := by
  have hchain : m.chain = site :: outer.map Call.site := by rw [chain, hm, List.map_cons]
  have hbound := ho.bound
  have hpairs := ho.chain
  have hcalls := h.calls
  rw [hchain] at hbound hpairs
  rw [hm] at hcalls
  obtain ⟨inner, hcall, haround⟩ := hcalls.uncons
  refine ⟨inner, hcall, haround, hbound site List.mem_cons_self, fun call hc => ?_, fun other hn hne => ?_⟩
  · exact Nat.ne_of_gt ((List.pairwise_cons.mp hpairs).1 _ (List.mem_map_of_mem hc))
  · refine h.idle other ?_
    rw [hchain]
    exact List.not_mem_cons_of_ne_of_not_mem hne hn

namespace Innermost

theorem put_keep (h : m.Innermost types token inner site thread outer) (store : Store) :
    ∀ call ∈ outer, (m.put site store).store call.site = m.store call.site :=
  fun call hc => store_put_of_ne (h.apart call hc)

/-- A store in which the innermost call is over has no token, like all stores that no call is in. -/
theorem put_idle (h : m.Innermost types token inner site thread outer) (ht : store.token = none) :
    ∀ other ∉ outer.map Call.site, ((m.put site store).store other).token = none := by
  intro other hn
  by_cases he : other = site
  · rw [he, store_put_self h.bound, ht]
  · rw [store_put_of_ne he, h.idle other hn he]

/-- The machine in which the innermost call has gone on. -/
theorem goes (h : m.Innermost types token inner site thread outer) {thread' : Thread}
    (hs : store.Serves inner token thread'.waits) (hb : thread'.activity.isBuild = false) :
    ({ (m.behind outer).put site store with calls := ⟨site, thread'⟩ :: outer } : Machine).Serves types
      token := by
  have hstore : ((m.put site store).store site).Serves inner token thread'.waits := by
    rw [store_put_self h.bound]
    exact hs
  refine ⟨.cons ⟨hstore, hb⟩ (h.around.keep (h.put_keep store)), fun other hn => ?_⟩
  obtain ⟨hne, hn⟩ := not_or.mp (List.mem_cons.not.mp hn)
  exact (congrArg Store.token (store_put_of_ne hne)).trans (h.idle other hn hne)

/-- The machine in which the innermost call has come to its values. -/
theorem finishes (h : m.Innermost types token inner site thread outer) {values : List Value}
    (hv : Value.HaveTypes values inner) (ht : store.token = none) :
    (((m.behind outer).put site store).reply values).Serves types token := by
  have hidle := h.put_idle ht
  unfold reply
  rcases h.around with ⟨rfl, rfl⟩ | hrest
  · exact ⟨fun other => hidle other List.not_mem_nil, hv⟩
  · have hrest : (m.put site store).ServesChain types token outer := hrest.keep (h.put_keep store)
    cases outer with
    | nil => cases hrest
    | cons back outer =>
      obtain ⟨types', hback, haround⟩ := hrest.uncons
      exact ⟨.cons ⟨hback.1, rfl⟩ (haround.keep fun _ _ => rfl), hidle⟩

end Innermost

/-- Every call is served on when the innermost takes a step. -/
theorem step_serves (ho : m.Ordered) (h : m.Serves types token) : m.step.Serves types token := by
  have hstep := m.step_stepped
  generalize m.step = next at hstep ⊢
  cases hstep with
  | rests hm =>
    have hcalls := h.calls
    rw [hm] at hcalls
    cases hcalls
  | @stops _ _ outer _ trap hm =>
    obtain ⟨inner, hi⟩ := h.innermost ho hm
    exact stop_serves (m := m.behind outer) trap hi.idle
  | goes hm _ ha =>
    obtain ⟨inner, hi⟩ := h.innermost ho hm
    have hp := Store.advance_serves hi.call.1 hi.call.2
    rw [ha] at hp
    exact hi.goes hp.1 hp.2
  | finishes hm _ ha =>
    obtain ⟨inner, hi⟩ := h.innermost ho hm
    have hp := Store.advance_serves hi.call.1 hi.call.2
    rw [ha] at hp
    exact hi.finishes hp.1 hp.2
  | @asks site provider thread thread' outer store interface function args results hm _ ha hl =>
    obtain ⟨inner, hi⟩ := h.innermost ho hm
    have hp := Store.advance_serves hi.call.1 hi.call.2
    rw [ha] at hp
    obtain ⟨hserves, hbuild, ht⟩ := hp
    unfold forward
    split
    · trivial
    · next hc =>
      have hgone := hi.goes hserves hbuild
      have hlt : provider < site := ho.stores site _ (Entries.mem_of_lookup hl)
      have hsize : provider < (m.put site store).stores.size := by
        rw [size_put]
        exact Nat.lt_trans hlt hi.bound
      obtain ⟨inner', hreceive⟩ := ((m.put site store).store provider).exists_receive_serves interface
        function args results token
      rw [ht]
      exact begin_serves hgone.idle hsize (by simpa using hc) hreceive (.inr hgone.calls)

/-! ## Runs -/

section Runs

variable {providers : Array Store} {signals : Signals} {interface function : String} {args : List Value}
  {results : Nat}

theorem atRest_store (providers : Array Store) (store : Store) (signals : Signals) :
    (atRest providers store signals).store providers.size = store := by
  simp [Machine.store, atRest, Array.getD_eq_getD_getElem?]

theorem atRest_store_of_getElem? {p : Store} (store : Store) (signals : Signals) (h : providers[site]? = some p) :
    (atRest providers store signals).store site = p := by
  obtain ⟨hlt, rfl⟩ := Array.getElem?_eq_some_iff.mp h
  rw [Machine.store, atRest, Array.getD_eq_getD_getElem?, Array.getElem?_push_lt hlt]
  rfl

theorem calling_serves (hp : ∀ p ∈ providers, p.token = none) (hs : store.token = none)
    (hr : (store.receive interface function args results token).Serves types token) :
    (calling providers store signals interface function args results token).Serves types token := by
  have hidle : ∀ store' ∈ providers.push store, store'.token = none := by
    intro store' hm
    rcases Array.mem_push.mp hm with hm | rfl
    · exact hp store' hm
    · exact hs
  refine begin_serves (fun other _ => ?_) (by simp [atRest]) nofun ?_ (.inl ⟨rfl, rfl⟩)
  · exact forall_store (P := fun store => store.token = none) rfl hidle other
  · rw [atRest_store]
    exact hr

/-- Every machine that a call passes through serves it. -/
theorem calling_step (ho : InOrder providers) (hl : ∀ l ∈ store.links, l.2 < providers.size)
    (h : (calling providers store signals interface function args results token).Passes m)
    (hm : m.Serves types token) : m.step.Serves types token :=
  step_serves (begin_passes ho hl (fun _ => receive_wiring _ _ _ _ _ _) h).1 hm

/-- When a call is over, no store has a token, whatever the call came to. -/
theorem invoke_serves {fuel : Nat} {visit : Visit} (ho : InOrder providers)
    (hl : ∀ l ∈ store.links, l.2 < providers.size) (hp : ∀ p ∈ providers, p.token = none)
    (hs : store.token = none)
    (hr : (store.receive interface function args results token).Serves types token)
    (h : invoke fuel providers store signals interface function args results token = .ok visit) :
    (visit.store.token = none ∧ ∀ p ∈ visit.providers, p.token = none) ∧
      ∀ values, visit.result = .ok values → Value.HaveTypes values types := by
  rcases finish_cases (fun m hm => calling_step ho hl hm) (calling_serves hp hs hr) h with
    ⟨m, values, ⟨hidle, hv⟩, rfl⟩ | ⟨m, trap, hidle, rfl⟩
  · refine ⟨hidle.visit _, fun values' he => ?_⟩
    cases he
    exact hv
  · exact ⟨hidle.visit _, nofun⟩

/-- While an instance is made, no store has a token. -/
theorem making_idle (hp : ∀ p ∈ providers, p.token = none) (hs : store.token = none)
    (h : (making providers store).Passes m) : m.Idle := by
  have hbears := making_bears (fun p hm => Store.bears_nothing.mpr (hp p hm)) (Store.bears_nothing.mpr hs) h
  have htokens : ∀ store ∈ m.stores, store.token = none := fun store hm => Store.bears_nothing.mp (hbears store hm)
  exact fun site => forall_store (P := fun store => store.token = none) rfl htokens site

end Runs

/-! ## What a run keeps of its token -/

/-- In a run with a token, the stores that have it are those of the calls that are still in the function
that they call, and no other store has a token. So nothing is interrupted before that token has fired. -/
structure Carries (m : Machine) (token : Option Token) : Prop where
  calling : ∀ call ∈ m.calls, call.thread.isCalling = true → (m.store call.site).token = token
  others : ∀ site, (∀ call ∈ m.calls, call.site = site → call.thread.isCalling = false) →
    (m.store site).token = none
  interrupted : ∀ signals site thread, isInterrupted signals (m.store site) thread = true →
    token.any signals.hasFired = true

theorem ServesChain.mem {calls : List Call} (h : m.ServesChain types token calls) {call : Call}
    (hc : call ∈ calls) : ∃ inner, m.ServesCall inner token call := by
  induction h with
  | first h =>
    cases List.mem_singleton.mp hc
    exact ⟨_, h⟩
  | inside h _ ih =>
    rcases List.mem_cons.mp hc with rfl | hc
    · exact ⟨_, h⟩
    · exact ih hc

theorem Serves.carries (h : m.Serves types token) : m.Carries token := by
  have htoken : ∀ call ∈ m.calls,
      (m.store call.site).token = if call.thread.isCalling then token else none := by
    intro call hc
    obtain ⟨inner, hserves, -⟩ := h.calls.mem hc
    exact hserves.token_eq
  -- a store has that token, or none
  have heither : ∀ site, (m.store site).token = token ∨ (m.store site).token = none := by
    intro site
    by_cases hsite : site ∈ m.chain
    · obtain ⟨call, hc, rfl⟩ := List.mem_map.mp hsite
      rw [htoken call hc]
      split
      · exact .inl rfl
      · exact .inr rfl
    · exact .inr (h.idle site hsite)
  refine ⟨fun call hc hcalling => ?_, fun site hn => ?_, fun signals site thread hi => ?_⟩
  · rw [htoken call hc, if_pos hcalling]
  · by_cases hsite : site ∈ m.chain
    · obtain ⟨call, hc, rfl⟩ := List.mem_map.mp hsite
      rw [htoken call hc, if_neg (by simp [hn call hc rfl])]
    · exact h.idle site hsite
  · unfold isInterrupted at hi
    split at hi
    · rcases heither site with ht | ht
      · rwa [ht] at hi
      · rw [ht] at hi
        cases hi
    · cases hi

/-- In a run that a call with a token starts, the calls under way have it and nothing else has one. -/
theorem calling_carries {providers : Array Store} {signals : Signals} {interface function : String}
    {args : List Value} {results : Nat} (ho : InOrder providers)
    (hl : ∀ l ∈ store.links, l.2 < providers.size) (hp : ∀ p ∈ providers, p.token = none)
    (hs : store.token = none)
    (h : (calling providers store signals interface function args results token).Passes m) :
    m.Carries token := by
  obtain ⟨types, hr⟩ := store.exists_receive_serves interface function args results token
  have hserves : Next.Serves types token (.more m) :=
    h.induction (fun m hm => calling_step ho hl hm) (calling_serves hp hs hr)
  exact Serves.carries hserves

end Machine

end ComponentHost
