import ComponentHost.Proofs.Machine.Chain
import Mathlib.Logic.Function.Iterate

/-! # Tokens and signals

A run looks at the tokens that have fired only through the tokens in its stores. So two runs go the same way
if what has fired is the same for a set of tokens that those in their stores are from; and a run fires no
token but that of its alarm. -/
set_option autoImplicit false

namespace ComponentHost

/-- Both fail with the same error, or come to values that are related. -/
inductive Together {ε α β : Type} (r : α → β → Prop) : Except ε α → Except ε β → Prop where
  | error (e : ε) : Together r (.error e) (.error e)
  | ok {a : α} {b : β} (h : r a b) : Together r (.ok a) (.ok b)

variable {own : Token → Prop}

/-! ## Tokens in stores -/

namespace Store

/-- The token in a store, if there is one, is one of these. -/
def Bears (own : Token → Prop) (store : Store) : Prop := ∀ token, store.token = some token → own token

variable {store : Store}

theorem bears_of_none (h : store.token = none) : store.Bears own := by
  intro token ht
  rw [h] at ht
  cases ht

theorem bears_nothing : store.Bears (fun _ => False) ↔ store.token = none :=
  ⟨fun h => Option.eq_none_iff_forall_ne_some.mpr h, bears_of_none⟩

theorem Evolves.bears {before after : Store} (h : before.Evolves after) (hb : before.Bears own) :
    after.Bears own := by
  intro token ht
  rcases h.token with he | he
  · exact hb token (he ▸ ht)
  · exact bears_of_none he token ht

theorem receive_bears {token : Option Token} (hs : store.Bears own)
    (ht : ∀ t, token = some t → own t) (interface function : String) (args : List Value)
    (results : Nat) : (store.receive interface function args results token).store.Bears own := by
  rcases store.receive_evolves interface function args results token with h | h
  · exact h.bears hs
  · have hput : ({ store with token } : Store).Bears own := ht
    exact h.bears hput

end Store

/-! ## Signals -/

namespace Signals

theorem hasFired_tick (signals : Signals) (token : Token) :
    signals.tick.hasFired token = (signals.hasFired token || decide (signals.alarm = some (0, token))) := by
  obtain ⟨fired, alarm⟩ := signals
  match alarm with
  | none => simp [tick]
  | some (n + 1, t) => simp [tick, hasFired]
  | some (0, t) =>
    simp only [tick, hasFired, List.contains_cons, Option.some.injEq, Prod.mk.injEq, true_and]
    rw [Bool.or_comm, Bool.beq_eq_decide_eq]
    simp only [eq_comm]

/-- The same of these tokens have fired, and the alarm is the same. -/
structure Agree (own : Token → Prop) (a b : Signals) : Prop where
  fired : ∀ token, own token → a.hasFired token = b.hasFired token
  alarm : a.alarm = b.alarm

variable {a b : Signals}

theorem Agree.refl (own : Token → Prop) (a : Signals) : a.Agree own a := ⟨fun _ _ => rfl, rfl⟩

theorem Agree.tick (h : a.Agree own b) : a.tick.Agree own b.tick where
  fired := fun token ht => by rw [hasFired_tick, hasFired_tick, h.fired token ht, h.alarm]
  alarm := by
    have ha := h.alarm
    unfold Signals.tick
    rw [← ha]
    split <;> first | exact ha | rfl

theorem Agree.any (h : a.Agree own b) {token : Option Token} (ht : ∀ t, token = some t → own t) :
    token.any a.hasFired = token.any b.hasFired := by
  cases token with
  | none => rfl
  | some t => exact h.fired t (ht t rfl)

/-- A token that is not that of the alarm does not fire. -/
theorem hasFired_ticks {token : Token} (n : Nat) {signals : Signals}
    (h : ∀ k, signals.alarm ≠ some (k, token)) :
    (Signals.tick^[n] signals).hasFired token = signals.hasFired token := by
  induction n generalizing signals with
  | zero => rfl
  | succ n ih =>
    rw [Function.iterate_succ_apply, ih, hasFired_tick, decide_eq_false (h 0), Bool.or_false]
    intro k
    unfold Signals.tick
    split
    · next he => exact h k
    · exact nofun
    · next n t he =>
      intro hk
      cases hk
      exact h (k + 1) he

end Signals

/-! ## Machines that go the same way -/

namespace Machine

/-- Machines that are the same, but for which tokens have fired that are none of these. -/
structure Alike (own : Token → Prop) (m m' : Machine) : Prop where
  stores : m.stores = m'.stores
  calls : m.calls = m'.calls
  signals : m.signals.Agree own m'.signals
  bears : ∀ store ∈ m.stores, store.Bears own

end Machine

/-- Steps that lead to machines that are the same but for other tokens. -/
inductive Next.Alike (own : Token → Prop) : Next → Next → Prop where
  | more {m m' : Machine} (h : m.Alike own m') : Alike own (.more m) (.more m')
  | done {m m' : Machine} (h : m.Alike own m') (values : List Value) :
      Alike own (.done m values) (.done m' values)
  | failed {m m' : Machine} (h : m.Alike own m') (trap : Trap) :
      Alike own (.failed m trap) (.failed m' trap)
  | blocked {m m' : Machine} (h : m.Alike own m') : Alike own (.blocked m) (.blocked m')

namespace Machine

variable {m m' : Machine}

namespace Alike

theorem store_eq (h : m.Alike own m') (site : Nat) : m.store site = m'.store site := by
  rw [store, h.stores, store]

theorem store_bears (h : m.Alike own m') (site : Nat) : (m.store site).Bears own :=
  forall_store (Store.bears_of_none rfl) h.bears site

theorem withCalls (h : m.Alike own m') (calls : List Call) :
    ({ m with calls } : Machine).Alike own { m' with calls } :=
  ⟨h.stores, rfl, h.signals, h.bears⟩

theorem put (h : m.Alike own m') (site : Nat) {store : Store} (hs : store.Bears own) :
    (m.put site store).Alike own (m'.put site store) where
  stores := by rw [Machine.put, h.stores, Machine.put]
  calls := h.calls
  signals := h.signals
  bears := fun other ho => by
    rcases Array.mem_or_eq_of_mem_setIfInBounds ho with ho | rfl
    · exact h.bears other ho
    · exact hs

theorem unwind (h : m.Alike own m') : m.unwind.Alike own m'.unwind where
  stores := by rw [Machine.unwind, Machine.unwind, chain, chain, h.stores, h.calls]
  calls := rfl
  signals := h.signals
  bears := forall_mem_stores fun site => by
    rw [unwind_store]
    split
    · exact Store.bears_of_none rfl
    · exact h.store_bears site

theorem stop (h : m.Alike own m') (site : Nat) (store : Store) (trap : Trap) :
    Next.Alike own (m.stop site store trap) (m'.stop site store trap) :=
  .failed (h.put site (Store.bears_of_none rfl)).unwind trap

theorem begin (h : m.Alike own m') (site : Nat) {start : Store → Progress}
    (hstart : ∀ store, store.Bears own → (start store).store.Bears own) :
    Next.Alike own (m.begin site start) (m'.begin site start) := by
  have hs := hstart _ (h.store_bears site)
  rw [begin_eq, begin_eq, ← h.store_eq site, ← h.calls]
  cases hgo : start (m.store site) with
  | go store thread =>
    rw [hgo] at hs
    exact .more ((h.put site hs).withCalls _)
  | call store | finish store => exact h.stop site store .stuck
  | trap store trap => exact h.stop site store trap

theorem forward (h : m.Alike own m') {token : Option Token} (ht : ∀ t, token = some t → own t)
    (provider : Nat) (interface function : String) (args : List Value) (results : Nat) :
    Next.Alike own (m.forward provider interface function args results token)
      (m'.forward provider interface function args results token) := by
  have hchain : m'.chain = m.chain := by rw [chain, ← h.calls, chain]
  unfold Machine.forward
  rw [hchain]
  split
  · exact .blocked h
  · exact h.begin provider fun store hs => Store.receive_bears hs ht interface function args results

theorem reply (h : m.Alike own m') (values : List Value) :
    Next.Alike own (m.reply values) (m'.reply values) := by
  unfold Machine.reply
  rw [← h.calls]
  split
  · exact .done h values
  · exact .more (h.withCalls _)

theorem isInterrupted {a b : Signals} (h : a.Agree own b) {store : Store} (hs : store.Bears own)
    (thread : Thread) :
    Machine.isInterrupted a store thread = Machine.isInterrupted b store thread := by
  unfold Machine.isInterrupted
  split
  · exact h.any hs
  · rfl

/-- Machines that are the same for these tokens take the same step. -/
theorem step (h : m.Alike own m') : Next.Alike own m.step m'.step := by
  cases hm : m.calls with
  | nil =>
    unfold Machine.step
    rw [← h.calls, hm]
    exact .done h []
  | cons call outer =>
    obtain ⟨site, thread⟩ := call
    have hticked : ({ m with signals := m.signals.tick, calls := outer } : Machine).Alike own
        { m' with signals := m'.signals.tick, calls := outer } :=
      ⟨h.stores, rfl, h.signals.tick, h.bears⟩
    have hs := h.store_bears site
    have he := (m.store site).advance_evolves thread
    rw [step_cons hm, step_cons (h.calls.symm.trans hm), ← h.store_eq site,
      ← isInterrupted h.signals.tick hs thread]
    dsimp only
    split
    · exact hticked.stop site _ _
    · cases hadvance : (m.store site).advance thread with
      | go store thread' =>
        rw [hadvance] at he
        exact .more ((hticked.put site (he.bears hs)).withCalls _)
      | trap store trap => exact hticked.stop site store trap
      | finish store values =>
        rw [hadvance] at he
        exact (hticked.put site (he.bears hs)).reply values
      | call store thread' interface function args results =>
        rw [hadvance] at he
        have hleft : store.Bears own := he.bears hs
        dsimp only
        split
        · exact hticked.stop site store .stuck
        · exact ((hticked.put site hleft).withCalls _).forward hleft _ interface function args results

end Alike

/-! ## Runs -/

/-- Runs that begin alike have the same end, and machines that are alike. -/
theorem runFrom_alike (fuel : Nat) {start start' : Next} (h : start.Alike own start') :
    (runFrom fuel start).1.Alike own (runFrom fuel start').1 ∧
      (runFrom fuel start).2 = (runFrom fuel start').2 := by
  induction fuel generalizing start start' with
  | zero => cases h <;> exact ⟨by assumption, rfl⟩
  | succ fuel ih =>
    cases h with
    | more h => exact ih h.step
    | done h | failed h | blocked h => exact ⟨h, rfl⟩

end Machine

/-- Visits that are the same, but for which tokens have fired that are none of these. -/
structure Visit.Alike (own : Token → Prop) (v v' : Visit) : Prop where
  providers : v.providers = v'.providers
  store : v.store = v'.store
  signals : v.signals.Agree own v'.signals
  result : v.result = v'.result
  bears : v.store.Bears own ∧ ∀ store ∈ v.providers, store.Bears own

namespace Machine

theorem Alike.visit {m m' : Machine} (h : m.Alike own m') (result : Except Trap (List Value)) :
    (m.visit result).Alike own (m'.visit result) where
  providers := by rw [Machine.visit, Machine.visit, h.stores]
  store := by rw [Machine.visit, Machine.visit, h.stores]
  signals := h.signals
  result := rfl
  bears := forall_visit (fun _ => Store.bears_of_none rfl) h.bears result

theorem finish_alike (fuel : Nat) {start start' : Next} (h : start.Alike own start') :
    Together (Visit.Alike own) (finish fuel start) (finish fuel start') := by
  obtain ⟨hm, he⟩ := runFrom_alike fuel h
  unfold finish
  cases hr : runFrom fuel start with
  | mk left ending =>
    cases hr' : runFrom fuel start' with
    | mk left' ending' =>
      rw [hr, hr'] at hm he
      cases he
      cases ending with
      | done values => exact .ok (hm.visit _)
      | failed trap => exact .ok (hm.visit _)
      | blocked | unfinished => exact .error _

theorem atRest_alike {providers : Array Store} {store : Store} {signals signals' : Signals}
    (hp : ∀ p ∈ providers, p.Bears own) (hs : store.Bears own) (h : signals.Agree own signals') :
    (atRest providers store signals).Alike own (atRest providers store signals') where
  stores := rfl
  calls := rfl
  signals := h
  bears := fun other ho => by
    rcases Array.mem_push.mp ho with ho | rfl
    · exact hp other ho
    · exact hs

theorem invoke_alike (fuel : Nat) {providers : Array Store} {store : Store}
    {signals signals' : Signals} {token : Option Token} (hp : ∀ p ∈ providers, p.Bears own)
    (hs : store.Bears own) (h : signals.Agree own signals') (ht : ∀ t, token = some t → own t)
    (interface function : String) (args : List Value) (results : Nat) :
    Together (Visit.Alike own)
      (invoke fuel providers store signals interface function args results token)
      (invoke fuel providers store signals' interface function args results token) :=
  finish_alike fuel ((atRest_alike hp hs h).begin _ fun _ hs =>
    Store.receive_bears hs ht interface function args results)

theorem making_alike {providers : Array Store} {store : Store} (hp : ∀ p ∈ providers, p.Bears own)
    (hs : store.Bears own) : Next.Alike own (making providers store) (making providers store) :=
  (atRest_alike hp hs (.refl own .quiet)).begin providers.size fun _ hs => hs

theorem instantiate_bears {fuel : Nat} {providers : Array Store} {store : Store} {visit : Visit}
    (hp : ∀ p ∈ providers, p.Bears own) (hs : store.Bears own)
    (h : instantiate fuel providers store = .ok visit) :
    visit.store.Bears own ∧ ∀ p ∈ visit.providers, p.Bears own := by
  have ha := finish_alike fuel (making_alike hp hs)
  rw [making, ← instantiate, h] at ha
  cases ha with
  | ok ha => exact ha.bears

theorem making_bears {providers : Array Store} {store : Store} {m : Machine}
    (hp : ∀ p ∈ providers, p.Bears own) (hs : store.Bears own) (hm : (making providers store).Passes m) :
    ∀ store ∈ m.stores, store.Bears own := by
  have ha : Next.Alike own (.more m) (.more m) := by
    refine hm.induction (P := fun next => Next.Alike own next next) (fun m _ h => ?_) (making_alike hp hs)
    cases h with
    | more h => exact h.step
  cases ha with
  | more h => exact h.bears

/-! ## What a run fires -/

theorem begin_signals (m : Machine) (site : Nat) (start : Store → Progress) :
    (m.begin site start).machine.signals = m.signals := by
  rw [begin_eq]
  split <;> rfl

theorem step_signals (m : Machine) :
    m.step.machine.signals = m.signals ∨ m.step.machine.signals = m.signals.tick := by
  have hstep := m.step_stepped
  generalize m.step = next at hstep ⊢
  cases hstep with
  | rests => exact .inl rfl
  | stops | goes => exact .inr rfl
  | finishes =>
    unfold reply
    split <;> exact .inr rfl
  | asks =>
    unfold forward
    split
    · exact .inr rfl
    · exact .inr (begin_signals _ _ _)

theorem runFrom_signals (fuel : Nat) (start : Next) :
    ∃ n, (runFrom fuel start).1.signals = Signals.tick^[n] start.machine.signals := by
  induction fuel generalizing start with
  | zero => cases start <;> exact ⟨0, rfl⟩
  | succ fuel ih =>
    cases start with
    | more m =>
      obtain ⟨n, hn⟩ := ih m.step
      rcases m.step_signals with hs | hs
      · exact ⟨n, hn.trans (congrArg _ hs)⟩
      · exact ⟨n + 1, hn.trans (congrArg _ hs)⟩
    | done | failed | blocked => exact ⟨0, rfl⟩

/-- What a call does to the signals is that time passes. -/
theorem invoke_signals {fuel : Nat} {providers : Array Store} {store : Store} {signals : Signals}
    {interface function : String} {args : List Value} {results : Nat} {token : Option Token}
    {visit : Visit}
    (h : invoke fuel providers store signals interface function args results token = .ok visit) :
    ∃ n, visit.signals = Signals.tick^[n] signals := by
  obtain ⟨n, hn⟩ := runFrom_signals fuel ((atRest providers store signals).begin providers.size
    fun store => store.receive interface function args results token)
  rw [begin_signals] at hn
  unfold invoke finish at h
  split at h
  · next hr =>
    cases h
    rw [hr] at hn
    exact ⟨n, hn⟩
  · next hr =>
    cases h
    rw [hr] at hn
    exact ⟨n, hn⟩
  · cases h
  · cases h

/-- A call fires no token but that of the alarm. -/
theorem invoke_fires {fuel : Nat} {providers : Array Store} {store : Store} {signals : Signals}
    {interface function : String} {args : List Value} {results : Nat} {token : Option Token}
    {visit : Visit}
    (h : invoke fuel providers store signals interface function args results token = .ok visit)
    {other : Token} (ho : ∀ n, signals.alarm ≠ some (n, other)) :
    visit.signals.hasFired other = signals.hasFired other := by
  obtain ⟨n, hn⟩ := invoke_signals h
  rw [hn, Signals.hasFired_ticks n ho]

end Machine

end ComponentHost
