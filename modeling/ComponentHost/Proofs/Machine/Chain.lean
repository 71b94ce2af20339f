import ComponentHost.Machine.Run
import ComponentHost.Proofs.Entries
import ComponentHost.Proofs.Machine.Frame
import Mathlib.Data.List.Perm.Subperm

/-! # The chain of calls

Where every store is linked only to stores before it, a chain of calls goes down: each call is in a store
before the one that it was made from. So a chain is never in a store twice, no call ever waits for a store
that its own chain is in, and no chain is longer than there are stores. -/
set_option autoImplicit false

namespace ComponentHost

/-- What a store is: the component in it, and the numbers of the stores that its imports lead to. -/
def Store.wiring (store : Store) : Component × List (String × Nat) := (store.component, store.links)

theorem Store.Evolves.wiring {before after : Store} (h : before.Evolves after) :
    after.wiring = before.wiring := by
  rw [Store.wiring, h.component, h.links, Store.wiring]

/-- The machine as it is behind a step. -/
def Next.machine : Next → Machine
  | .more m => m
  | .done m _ => m
  | .failed m _ => m
  | .blocked m => m

namespace Machine

def store (m : Machine) (site : Nat) : Store := m.stores.getD site default

def wiring (m : Machine) : Array (Component × List (String × Nat)) := m.stores.map Store.wiring

/-! ## Stores of a machine -/

theorem forall_store {P : Store → Prop} {m : Machine} (hd : P default) (h : ∀ store ∈ m.stores, P store)
    (site : Nat) : P (m.store site) := by
  rw [store, Array.getD_eq_getD_getElem?]
  cases hs : m.stores[site]? with
  | none => exact hd
  | some store => exact h store (Array.mem_of_getElem? hs)

theorem forall_mem_stores {P : Store → Prop} {m : Machine} (h : ∀ site, P (m.store site)) :
    ∀ store ∈ m.stores, P store := by
  intro store hs
  obtain ⟨i, hi, rfl⟩ := Array.mem_iff_getElem.mp hs
  have hstore := h i
  rwa [Machine.store, Array.getD_eq_getD_getElem?, Array.getElem?_eq_getElem hi] at hstore

theorem store_wiring (m : Machine) (site : Nat) :
    (m.store site).wiring = m.wiring.getD site (default : Store).wiring := by
  unfold store wiring
  simp only [Array.getD_eq_getD_getElem?, Array.getElem?_map]
  cases m.stores[site]? <;> rfl

theorem wiring_ext {m m' : Machine} (hs : m'.stores.size = m.stores.size)
    (h : ∀ site, (m'.store site).wiring = (m.store site).wiring) : m'.wiring = m.wiring := by
  refine Array.ext (by simp [wiring, hs]) fun i hi hi' => ?_
  have hi := h i
  rw [store_wiring, store_wiring, Array.getD_eq_getD_getElem?, Array.getD_eq_getD_getElem?,
    Array.getElem?_eq_getElem ‹_›, Array.getElem?_eq_getElem ‹_›] at hi
  exact hi

/-! ## Stores that are put back -/

theorem takeOut_put (m : Machine) (site : Nat) (store : Store) :
    (m.takeOut site).2.put site store = m.put site store := by
  simp [takeOut, put]

theorem size_put (m : Machine) (site : Nat) (store : Store) :
    (m.put site store).stores.size = m.stores.size := by
  rw [put, Array.size_setIfInBounds]

theorem store_put (m : Machine) (site other : Nat) (store : Store) :
    (m.put site store).store other = if other = site ∧ site < m.stores.size then store else m.store other := by
  simp only [Machine.store, put, Array.getD_eq_getD_getElem?, Array.getElem?_setIfInBounds]
  by_cases he : site = other
  · subst he
    by_cases hs : site < m.stores.size
    · simp [hs]
    · simp [hs]
  · simp [he, Ne.symm he]

theorem put_wiring {m : Machine} {site : Nat} {store : Store}
    (h : store.wiring = (m.store site).wiring) : (m.put site store).wiring = m.wiring := by
  refine wiring_ext (m.size_put site store) fun other => ?_
  rw [store_put]
  split
  · next he => rw [h, he.1]
  · rfl

theorem size_unwind (m : Machine) : m.unwind.stores.size = m.stores.size := by
  have hfold : ∀ (chain : List Nat) (stores : Array Store),
      (chain.foldl (fun stores site => stores.modify site ({ · with token := none })) stores).size =
        stores.size := by
    intro chain
    induction chain with
    | nil => exact fun _ => rfl
    | cons site chain ih => exact fun stores => by rw [List.foldl_cons, ih, Array.size_modify]
  exact hfold m.chain m.stores

/-- When the calls are given up, the stores that they are in lay their tokens down. -/
theorem unwind_store (m : Machine) (site : Nat) :
    m.unwind.store site = if site ∈ m.chain then { m.store site with token := none } else m.store site := by
  have hfold : ∀ (chain : List Nat) (stores : Array Store),
      (chain.foldl (fun stores site => stores.modify site ({ · with token := none })) stores).getD site
        default = if site ∈ chain then { stores.getD site default with token := none }
          else stores.getD site default := by
    intro chain
    induction chain with
    | nil => exact fun _ => rfl
    | cons first chain ih =>
      intro stores
      rw [List.foldl_cons, ih]
      simp only [List.mem_cons, Array.getD_eq_getD_getElem?, Array.getElem?_modify]
      by_cases he : first = site
      · subst he
        cases stores[first]? with
        | none =>
          -- the default store, which has no token
          by_cases hc : first ∈ chain
          · simp [hc]
          · simp only [hc, Option.map_none, Option.getD_none, or_false, if_true, if_false]
            rfl
        | some store => by_cases hc : first ∈ chain <;> simp [hc]
      · simp [he, Ne.symm he]
  exact hfold m.chain m.stores

theorem unwind_wiring (m : Machine) : m.unwind.wiring = m.wiring := by
  refine wiring_ext m.size_unwind fun site => ?_
  rw [unwind_store]
  split <;> rfl

theorem stop_wiring {m : Machine} {site : Nat} {store : Store} (trap : Trap)
    (h : store.wiring = (m.store site).wiring) : (m.stop site store trap).machine.wiring = m.wiring := by
  rw [stop, Next.machine, unwind_wiring]
  exact put_wiring h

/-! ## What a step does -/

/-- A step, in terms of the store that the innermost call is in. -/
theorem step_cons {m : Machine} {site : Nat} {thread : Thread} {outer : List Call}
    (hm : m.calls = ⟨site, thread⟩ :: outer) :
    m.step =
      let ticked := { m with signals := m.signals.tick, calls := outer }
      if isInterrupted m.signals.tick (m.store site) thread then
        ticked.stop site (m.store site) .interrupted
      else
        match (m.store site).advance thread with
        | .go store thread => .more { ticked.put site store with calls := ⟨site, thread⟩ :: outer }
        | .trap store trap => ticked.stop site store trap
        | .finish store values => (ticked.put site store).reply values
        | .call store thread interface function args results =>
          match store.links.lookup interface with
          | none => ticked.stop site store .stuck
          | some provider =>
            { ticked.put site store with calls := ⟨site, thread⟩ :: outer }.forward provider interface
              function args results store.token := by
  unfold step
  rw [hm]
  simp only [takeOut_put, stop]
  rfl

/-- The machine that a step of the innermost call leaves the others in. -/
def behind (m : Machine) (outer : List Call) : Machine := { m with signals := m.signals.tick, calls := outer }

/-- What a thread does when the machine stops behind it: it traps, or calls a function that no store has. -/
inductive Stopping (links : List (String × Nat)) : Progress → Store → Trap → Prop where
  | trap (store : Store) (trap : Trap) : Stopping links (.trap store trap) store trap
  | call (store : Store) (thread : Thread) {interface : String} (function : String) (args : List Value)
      (results : Nat) (hl : links.lookup interface = none) :
      Stopping links (.call store thread interface function args results) store .stuck

/-- What the innermost call does in a step, and what has become of its store by then. -/
inductive Stepped (m : Machine) : Next → Prop where
  | rests (hm : m.calls = []) : Stepped m (.done m [])
  | stops {site : Nat} {thread : Thread} {outer : List Call} {store : Store} (trap : Trap)
      (hm : m.calls = ⟨site, thread⟩ :: outer) (he : (m.store site).Evolves store)
      (hs : store = m.store site ∧ trap = .interrupted ∨
        Stopping (m.store site).links ((m.store site).advance thread) store trap) :
      Stepped m ((m.behind outer).stop site store trap)
  | goes {site : Nat} {thread thread' : Thread} {outer : List Call} {store : Store}
      (hm : m.calls = ⟨site, thread⟩ :: outer) (he : (m.store site).Evolves store)
      (ha : (m.store site).advance thread = .go store thread') :
      Stepped m (.more { (m.behind outer).put site store with calls := ⟨site, thread'⟩ :: outer })
  | finishes {site : Nat} {thread : Thread} {outer : List Call} {store : Store} {values : List Value}
      (hm : m.calls = ⟨site, thread⟩ :: outer) (he : (m.store site).Evolves store)
      (ha : (m.store site).advance thread = .finish store values) :
      Stepped m (((m.behind outer).put site store).reply values)
  | asks {site provider : Nat} {thread thread' : Thread} {outer : List Call} {store : Store}
      {interface function : String} {args : List Value} {results : Nat}
      (hm : m.calls = ⟨site, thread⟩ :: outer) (he : (m.store site).Evolves store)
      (ha : (m.store site).advance thread = .call store thread' interface function args results)
      (hl : (m.store site).links.lookup interface = some provider)
      (hi : isInterrupted m.signals.tick (m.store site) thread = false) :
      Stepped m (({ (m.behind outer).put site store with calls := ⟨site, thread'⟩ :: outer } : Machine).forward
        provider interface function args results store.token)

theorem step_stepped (m : Machine) : m.Stepped m.step := by
  cases hm : m.calls with
  | nil =>
    unfold step
    rw [hm]
    exact .rests hm
  | cons call outer =>
    obtain ⟨site, thread⟩ := call
    have he := (m.store site).advance_evolves thread
    rw [step_cons hm]
    dsimp only
    split
    · exact .stops _ hm (.refl _) (.inl ⟨rfl, rfl⟩)
    · next hi =>
      cases ha : (m.store site).advance thread with
      | go store thread' =>
        rw [ha] at he
        exact .goes hm he ha
      | trap store trap =>
        rw [ha] at he
        exact .stops trap hm he (.inr (ha ▸ .trap store trap))
      | finish store values =>
        rw [ha] at he
        exact .finishes hm he ha
      | call store thread' interface function args results =>
        rw [ha] at he
        dsimp only
        split
        · next hl => exact .stops _ hm he (.inr (ha ▸ .call store thread' function args results (he.links ▸ hl)))
        · next provider hl => exact .asks hm he ha (he.links ▸ hl) (Bool.eq_false_iff.mpr hi)

theorem begin_eq (m : Machine) (site : Nat) (start : Store → Progress) :
    m.begin site start =
      match start (m.store site) with
      | .go store thread => .more { m.put site store with calls := ⟨site, thread⟩ :: m.calls }
      | .call store _ _ _ _ _ | .finish store _ => m.stop site store .stuck
      | .trap store trap => m.stop site store trap := by
  unfold begin
  simp only [stop, takeOut_put]
  rfl

theorem begin_cases (m : Machine) (site : Nat) (start : Store → Progress)
    (hstart : ∀ store, (start store).store.wiring = store.wiring) :
    (m.begin site start).machine.wiring = m.wiring ∧
      (∀ m', m.begin site start = .more m' →
        m'.signals = m.signals ∧ ∃ thread, m'.calls = ⟨site, thread⟩ :: m.calls) ∧
      ∀ m', m.begin site start ≠ .blocked m' := by
  have h := hstart (m.store site)
  rw [begin_eq]
  split
  · next store thread hgo =>
    rw [hgo] at h
    refine ⟨put_wiring h, fun m' he => ?_, fun _ => nofun⟩
    cases he
    exact ⟨rfl, thread, rfl⟩
  · next store _ _ _ _ _ hcall =>
    rw [hcall] at h
    exact ⟨stop_wiring .stuck h, fun _ => nofun, fun _ => nofun⟩
  · next store _ hfinish =>
    rw [hfinish] at h
    exact ⟨stop_wiring .stuck h, fun _ => nofun, fun _ => nofun⟩
  · next store trap htrap =>
    rw [htrap] at h
    exact ⟨stop_wiring trap h, fun _ => nofun, fun _ => nofun⟩

theorem receive_wiring (store : Store) (interface function : String) (args : List Value)
    (results : Nat) (token : Option Token) :
    (store.receive interface function args results token).store.wiring = store.wiring := by
  rcases store.receive_evolves interface function args results token with h | h
  · exact h.wiring
  · exact h.wiring

/-- The calls behind a step: the innermost goes on, one more is made inside it, or it has returned. -/
inductive Follows (m : Machine) : List Call → Prop where
  | same {site : Nat} {thread thread' : Thread} {outer : List Call}
      (hm : m.calls = ⟨site, thread⟩ :: outer) : Follows m (⟨site, thread'⟩ :: outer)
  | inner {site provider : Nat} {interface : String} {thread thread' inside : Thread}
      {outer : List Call} (hm : m.calls = ⟨site, thread⟩ :: outer)
      (hl : (m.store site).links.lookup interface = some provider) (hp : provider ∉ m.chain) :
      Follows m (⟨provider, inside⟩ :: ⟨site, thread'⟩ :: outer)
  | back {site site' : Nat} {thread thread' thread'' : Thread} {outer : List Call}
      (hm : m.calls = ⟨site, thread⟩ :: ⟨site', thread'⟩ :: outer) :
      Follows m (⟨site', thread''⟩ :: outer)

/-- Everything that a step can do to the stores, the signals and the calls. -/
theorem step_cases (m : Machine) :
    m.step.machine.wiring = m.wiring ∧
      (∀ m', m.step = .more m' → m'.signals = m.signals.tick ∧ m.Follows m'.calls) ∧
      ∀ m', m.step = .blocked m' → ∃ site thread outer interface provider,
        m.calls = ⟨site, thread⟩ :: outer ∧
          (m.store site).links.lookup interface = some provider ∧ provider ∈ m.chain := by
  have hstep := m.step_stepped
  generalize m.step = next at hstep ⊢
  cases hstep with
  | rests => exact ⟨rfl, fun _ => nofun, fun _ => nofun⟩
  | @stops _ _ outer _ trap hm he =>
    exact ⟨stop_wiring (m := m.behind outer) trap he.wiring, fun _ => nofun, fun _ => nofun⟩
  | @goes _ _ _ outer _ hm he =>
    refine ⟨put_wiring (m := m.behind outer) he.wiring, fun m' h => ?_, fun _ => nofun⟩
    cases h
    exact ⟨rfl, .same hm⟩
  | @finishes site _ outer store values hm he =>
    have hw := put_wiring (m := m.behind outer) he.wiring
    unfold reply
    cases outer with
    | nil => exact ⟨hw, fun _ => nofun, fun _ => nofun⟩
    | cons call outer =>
      obtain ⟨site', thread'⟩ := call
      refine ⟨hw, fun m' h => ?_, fun _ => nofun⟩
      cases h
      exact ⟨rfl, .back hm⟩
  | @asks site provider thread thread' outer store interface function args results hm he ha hl =>
    have hw := put_wiring (m := m.behind outer) he.wiring
    have hchain : m.chain = site :: outer.map Call.site := by rw [chain, hm, List.map_cons]
    unfold forward
    split
    · next hc =>
      refine ⟨hw, fun _ => nofun, fun _ _ => ⟨site, thread, outer, interface, provider, hm, hl, ?_⟩⟩
      rw [hchain]
      simpa [chain] using hc
    · next hc =>
      obtain ⟨hw', hmore, hblocked⟩ := begin_cases
        { (m.behind outer).put site store with calls := ⟨site, thread'⟩ :: outer } provider
        (fun store' => store'.receive interface function args results store.token)
        fun _ => receive_wiring _ _ _ _ _ _
      refine ⟨hw'.trans hw, fun m' h => ?_, fun m' h => absurd h (hblocked m')⟩
      obtain ⟨hsignals, inside, hcalls⟩ := hmore m' h
      refine ⟨hsignals, ?_⟩
      rw [hcalls]
      refine .inner hm hl ?_
      rw [hchain]
      simpa [chain] using hc

/-! ## Chains that go down -/

/-- Stores in an order in which each is linked to stores before it only. -/
def InOrder (stores : Array Store) : Prop :=
  ∀ site, ∀ l ∈ (stores.getD site default).links, l.2 < site

/-- The stores are in order, and the chain of calls goes down in it. -/
structure Ordered (m : Machine) : Prop where
  stores : InOrder m.stores
  chain : m.chain.Pairwise (· < ·)
  bound : ∀ site ∈ m.chain, site < m.stores.size

variable {m m' : Machine} {n : Nat}

theorem size_of_wiring (h : m'.wiring = m.wiring) : m'.stores.size = m.stores.size := by
  have hs := congrArg Array.size h
  rwa [wiring, wiring, Array.size_map, Array.size_map] at hs

theorem InOrder.of_wiring (h : InOrder m.stores) (hw : m'.wiring = m.wiring) : InOrder m'.stores := by
  intro site
  have hs := m'.store_wiring site
  rw [hw, ← store_wiring] at hs
  have hl : (m'.store site).links = (m.store site).links := congrArg Prod.snd hs
  have hold : ∀ l ∈ (m.store site).links, l.2 < site := h site
  rwa [← hl] at hold

theorem Follows.descends {calls : List Call} (hf : m.Follows calls) (h : m.Ordered) :
    (calls.map Call.site).Pairwise (· < ·) ∧ ∀ site ∈ calls.map Call.site, site < m.stores.size := by
  have hchain := h.chain
  have hbound := h.bound
  rw [chain] at hchain hbound
  cases hf with
  | same hm =>
    rw [hm] at hchain hbound
    exact ⟨hchain, hbound⟩
  | @inner site provider interface _ _ _ outer hm hl =>
    rw [hm, List.map_cons] at hchain hbound
    have hlt : provider < site := h.stores site _ (Entries.mem_of_lookup hl)
    have hall : ∀ other ∈ site :: outer.map Call.site, provider < other := by
      intro other ho
      rcases List.mem_cons.mp ho with rfl | ho
      · exact hlt
      · exact Nat.lt_trans hlt ((List.pairwise_cons.mp hchain).1 other ho)
    refine ⟨List.pairwise_cons.mpr ⟨hall, hchain⟩, List.forall_mem_cons.mpr ⟨?_, hbound⟩⟩
    exact Nat.lt_trans hlt (hbound site List.mem_cons_self)
  | back hm =>
    rw [hm, List.map_cons] at hchain hbound
    exact ⟨(List.pairwise_cons.mp hchain).2, (List.forall_mem_cons.mp hbound).2⟩

theorem Ordered.step (h : m.Ordered) (hs : m.step = .more m') : m'.Ordered := by
  obtain ⟨hw, hmore, -⟩ := m.step_cases
  rw [hs, Next.machine] at hw
  obtain ⟨hchain, hbound⟩ := (hmore m' hs).2.descends h
  refine ⟨h.stores.of_wiring hw, hchain, ?_⟩
  rw [size_of_wiring hw]
  exact hbound

/-! ## Stores that are held -/

/-- The stores that the calls inside the first one hold. -/
def held (m : Machine) : List Nat := m.chain.dropLast

/-- What a chain of calls holds, of the stores of so many providers: no store twice, so the calls are
nested no deeper than there are providers, and no call that comes next waits for one of them. -/
structure HoldsApart (m : Machine) (providers : Nat) : Prop where
  nodup : m.chain.Nodup
  provided : ∀ site ∈ m.held, site < providers
  depth : m.held.length ≤ providers
  free : ∀ m', m.step ≠ .blocked m'

/-- An import of the innermost call leads to a store that the chain is not in. -/
theorem Ordered.not_mem_chain (h : m.Ordered) {site provider : Nat} {thread : Thread} {outer : List Call}
    {interface : String} (hm : m.calls = ⟨site, thread⟩ :: outer)
    (hl : (m.store site).links.lookup interface = some provider) : provider ∉ m.chain := by
  have hlt : provider < site := h.stores site _ (Entries.mem_of_lookup hl)
  have hchain := h.chain
  rw [Machine.chain, hm, List.map_cons] at hchain ⊢
  intro hp
  rcases List.mem_cons.mp hp with rfl | hp
  · exact Nat.lt_irrefl _ hlt
  · exact Nat.lt_asymm hlt ((List.pairwise_cons.mp hchain).1 provider hp)

theorem Ordered.step_ne_blocked (h : m.Ordered) (m' : Machine) : m.step ≠ .blocked m' := by
  intro hs
  obtain ⟨site, thread, outer, interface, provider, hm, hl, hp⟩ := m.step_cases.2.2 m' hs
  exact h.not_mem_chain hm hl hp

theorem Ordered.holdsApart (h : m.Ordered) (hn : m.stores.size = n + 1) : m.HoldsApart n := by
  have hprovided : ∀ site ∈ m.held, site < n := by
    intro site hsite
    have hne : m.chain ≠ [] := by
      intro he
      rw [held, he] at hsite
      cases hsite
    -- the first call is in a store behind those of all others
    have hsplit := List.dropLast_append_getLast hne
    have hchain := h.chain
    rw [← hsplit, List.pairwise_append] at hchain
    have hlt := hchain.2.2 site hsite _ (List.mem_singleton_self _)
    have hlast := h.bound _ (List.getLast_mem hne)
    omega
  have hnodup : m.chain.Nodup := h.chain.imp Nat.ne_of_lt
  refine ⟨hnodup, hprovided, ?_, h.step_ne_blocked⟩
  have hsub : m.held ⊆ List.range n := fun site hs => List.mem_range.mpr (hprovided site hs)
  have hle := (List.subperm_of_subset (hnodup.sublist (List.dropLast_sublist _)) hsub).length_le
  rwa [List.length_range] at hle

/-! ## Runs -/

/-- So many steps lead from one machine to another. -/
def Steps : Nat → Machine → Machine → Prop
  | 0, m, m' => m' = m
  | n + 1, m, m' => ∃ k, m.step = .more k ∧ Steps n k m'

theorem Ordered.steps (h : m.Ordered) (hs : m.Steps n m') : m'.Ordered := by
  induction n generalizing m with
  | zero =>
    cases hs
    exact h
  | succ n ih =>
    obtain ⟨k, hk, hs⟩ := hs
    exact ih (h.step hk) hs

theorem Steps.wiring (hs : m.Steps n m') : m'.wiring = m.wiring := by
  induction n generalizing m with
  | zero =>
    cases hs
    rfl
  | succ n ih =>
    obtain ⟨k, hk, hs⟩ := hs
    have hw := m.step_cases.1
    rw [hk, Next.machine] at hw
    exact (ih hs).trans hw

end Machine

/-- A run passes through a machine. -/
def Next.Passes (start : Next) (m : Machine) : Prop := ∃ first n, start = .more first ∧ first.Steps n m

/-- In a run that starts so, no call ever waits for a store that its own chain holds. -/
structure Next.NeverBlocks (start : Next) (providers : Nat) : Prop where
  starts : ∀ m, start ≠ .blocked m
  passes : ∀ m, start.Passes m → m.HoldsApart providers

theorem Next.NeverBlocks.mono {start : Next} {n k : Nat} (h : start.NeverBlocks n) (hle : n ≤ k) :
    start.NeverBlocks k where
  starts := h.starts
  passes := fun m hm =>
    let held := h.passes m hm
    ⟨held.nodup, fun site hs => Nat.lt_of_lt_of_le (held.provided site hs) hle,
      Nat.le_trans held.depth hle, held.free⟩

theorem Next.Passes.cons {m m' : Machine} (h : m.step.Passes m') : (Next.more m).Passes m' := by
  obtain ⟨first, n, hf, hs⟩ := h
  exact ⟨m, n + 1, rfl, first, hf, hs⟩

/-- What holds of the start of a run, and is kept by every step of it, holds of every machine that the run
passes through. -/
theorem Next.Passes.induction {P : Next → Prop} {start : Next} {m : Machine}
    (hstep : ∀ m, start.Passes m → P (.more m) → P m.step) (h : P start) (hm : start.Passes m) :
    P (.more m) := by
  obtain ⟨first, n, rfl, hs⟩ := hm
  induction n generalizing first with
  | zero =>
    cases hs
    exact h
  | succ n ih =>
    obtain ⟨k, hk, hs⟩ := hs
    have hnext := hstep first ⟨first, 0, rfl, rfl⟩ h
    rw [hk] at hnext
    exact ih k hs (fun m hm => hstep m (.cons (hk ▸ hm))) hnext

namespace Machine

/-- What holds of the start of a run, and is kept by every step of it, holds of where the run ends. -/
theorem finish_cases {P : Next → Prop} {fuel : Nat} {start : Next} {visit : Visit}
    (hstep : ∀ m, start.Passes m → P (.more m) → P m.step) (h : P start)
    (hf : finish fuel start = .ok visit) :
    (∃ m values, P (.done m values) ∧ visit = m.visit (.ok values)) ∨
      ∃ m trap, P (.failed m trap) ∧ visit = m.visit (.error trap) := by
  induction fuel generalizing start with
  | zero =>
    cases start with
    | more m | blocked m => cases hf
    | done m values =>
      cases hf
      exact .inl ⟨m, values, h, rfl⟩
    | failed m trap =>
      cases hf
      exact .inr ⟨m, trap, h, rfl⟩
  | succ fuel ih =>
    cases start with
    | more m =>
      exact ih (fun m' hm => hstep m' hm.cons) (hstep m ⟨m, 0, rfl, rfl⟩ h) hf
    | blocked m => cases hf
    | done m values =>
      cases hf
      exact .inl ⟨m, values, h, rfl⟩
    | failed m trap =>
      cases hf
      exact .inr ⟨m, trap, h, rfl⟩

theorem runFrom_wiring (fuel : Nat) (start : Next) :
    (runFrom fuel start).1.wiring = start.machine.wiring := by
  induction fuel generalizing start with
  | zero => cases start <;> rfl
  | succ fuel ih =>
    cases start with
    | more m => exact (ih m.step).trans m.step_cases.1
    | done | failed | blocked => rfl

theorem runFrom_ne_blocked (fuel : Nat) {start : Next} {providers : Nat}
    (h : start.NeverBlocks providers) : (runFrom fuel start).2 ≠ .blocked := by
  induction fuel generalizing start with
  | zero =>
    cases start with
    | blocked m => exact absurd rfl (h.starts m)
    | more | done | failed => exact nofun
  | succ fuel ih =>
    cases start with
    | blocked m => exact absurd rfl (h.starts m)
    | done | failed => exact nofun
    | more m =>
      refine ih ⟨(h.passes m ⟨m, 0, rfl, rfl⟩).free, ?_⟩
      exact fun m' hm => h.passes m' hm.cons

/-! ## Instances and invocations -/

/-- The start of making the instance of a store behind its providers. -/
def making (providers : Array Store) (store : Store) : Next :=
  (atRest providers store .quiet).begin providers.size fun store =>
    .go store ⟨.build store.component.steps, [], 0⟩

/-- The start of a call of a function that a store behind its providers exports. -/
def calling (providers : Array Store) (store : Store) (signals : Signals)
    (interface function : String) (args : List Value) (results : Nat) (token : Option Token) : Next :=
  (atRest providers store signals).begin providers.size fun store =>
    store.receive interface function args results token

theorem atRest_inOrder {providers : Array Store} {store : Store} (hp : InOrder providers)
    (hs : ∀ l ∈ store.links, l.2 < providers.size) : InOrder (providers.push store) := by
  intro site l hl
  rw [Array.getD_eq_getD_getElem?, Array.getElem?_push] at hl
  split at hl
  · next he =>
    subst he
    exact hs l hl
  · exact hp site l (by rwa [Array.getD_eq_getD_getElem?])

/-- Every machine that a run over stores in order passes through is ordered, and has the stores wired as
they were. -/
theorem begin_passes {providers : Array Store} {store : Store} {signals : Signals}
    (hp : InOrder providers) (hs : ∀ l ∈ store.links, l.2 < providers.size) {start : Store → Progress}
    (hstart : ∀ store, (start store).store.wiring = store.wiring) {m : Machine}
    (hm : ((atRest providers store signals).begin providers.size start).Passes m) :
    m.Ordered ∧ m.wiring = (providers.push store).map Store.wiring := by
  obtain ⟨hw, hmore, -⟩ := (atRest providers store signals).begin_cases providers.size start hstart
  obtain ⟨first, n, hf, hsteps⟩ := hm
  rw [hf, Next.machine] at hw
  obtain ⟨-, thread, hcalls⟩ := hmore first hf
  have hchain : first.chain = [providers.size] := by
    rw [chain, hcalls]
    rfl
  have hordered : first.Ordered := by
    refine ⟨InOrder.of_wiring (atRest_inOrder hp hs) hw, ?_, ?_⟩
    · rw [hchain]
      exact List.pairwise_singleton _ _
    · rw [hchain, size_of_wiring hw, atRest, Array.size_push]
      simp
  exact ⟨hordered.steps hsteps, hsteps.wiring.trans hw⟩

theorem begin_neverBlocks {providers : Array Store} {store : Store} {signals : Signals}
    (hp : InOrder providers) (hs : ∀ l ∈ store.links, l.2 < providers.size) (start : Store → Progress)
    (hstart : ∀ store, (start store).store.wiring = store.wiring) :
    ((atRest providers store signals).begin providers.size start).NeverBlocks providers.size := by
  obtain ⟨-, -, hblocked⟩ := (atRest providers store signals).begin_cases providers.size start hstart
  refine ⟨hblocked, fun m hm => ?_⟩
  obtain ⟨hordered, hw⟩ := begin_passes hp hs hstart hm
  refine hordered.holdsApart ?_
  have hsize := congrArg Array.size hw
  rwa [wiring, Array.size_map, Array.size_map, Array.size_push] at hsize

theorem making_neverBlocks {providers : Array Store} {store : Store} (hp : InOrder providers)
    (hs : ∀ l ∈ store.links, l.2 < providers.size) :
    (making providers store).NeverBlocks providers.size :=
  begin_neverBlocks hp hs _ fun _ => rfl

theorem calling_neverBlocks {providers : Array Store} {store : Store} (hp : InOrder providers)
    (hs : ∀ l ∈ store.links, l.2 < providers.size) (signals : Signals) (interface function : String)
    (args : List Value) (results : Nat) (token : Option Token) :
    (calling providers store signals interface function args results token).NeverBlocks
      providers.size :=
  begin_neverBlocks hp hs _ fun _ => receive_wiring _ _ _ _ _ _

theorem finish_stall {fuel : Nat} {start : Next} {providers : Nat} {stall : Stall}
    (h : start.NeverBlocks providers) (hf : finish fuel start = .error stall) : stall = .unfinished := by
  have hne := runFrom_ne_blocked fuel h
  unfold finish at hf
  split at hf
  · cases hf
  · cases hf
  · next he =>
    rw [he] at hne
    exact absurd rfl hne
  · cases hf
    rfl

/-- What holds of all stores of a machine holds of those that a visit takes out of it. -/
theorem forall_visit {P : Store → Prop} {m : Machine} (hd : m.stores.size = 0 → P default)
    (h : ∀ store ∈ m.stores, P store) (result : Except Trap (List Value)) :
    P (m.visit result).store ∧ ∀ p ∈ (m.visit result).providers, P p := by
  constructor
  · rw [Machine.visit]
    cases hb : m.stores.back? with
    | none => exact hd (Array.size_eq_zero_iff.mpr (Array.back?_eq_none_iff.mp hb))
    | some store => exact h store (Array.mem_of_back? hb)
  · intro p hp
    refine h p ?_
    obtain ⟨i, hi⟩ := Array.mem_iff_getElem?.mp hp
    rw [Machine.visit, Array.getElem?_pop] at hi
    split at hi
    · exact Array.mem_of_getElem? hi
    · cases hi

/-- What a run leaves of the stores that it began with. -/
structure Leaves (providers : Array Store) (store : Store) (visit : Visit) : Prop where
  providers : visit.providers.map Store.wiring = providers.map Store.wiring
  store : visit.store.wiring = store.wiring

theorem visit_leaves {m : Machine} {providers : Array Store} {store : Store}
    (h : m.wiring = (providers.push store).map Store.wiring) (result : Except Trap (List Value)) :
    Leaves providers store (m.visit result) := by
  rw [Array.map_push] at h
  constructor
  · rw [visit, Array.map_pop, ← wiring, h, Array.pop_push]
  · have hback : (m.stores.back?).map Store.wiring = some store.wiring := by
      rw [← Array.back?_map, ← wiring, h, Array.back?_push]
    obtain ⟨last, hl, hw⟩ := Option.map_eq_some_iff.mp hback
    rw [visit, hl]
    exact hw

theorem begin_leaves {fuel : Nat} {providers : Array Store} {store : Store} {signals : Signals}
    {start : Store → Progress} (hstart : ∀ store, (start store).store.wiring = store.wiring)
    {visit : Visit}
    (h : finish fuel ((atRest providers store signals).begin providers.size start) = .ok visit) :
    Leaves providers store visit := by
  have hw := runFrom_wiring fuel ((atRest providers store signals).begin providers.size start)
  rw [((atRest providers store signals).begin_cases providers.size start hstart).1] at hw
  unfold finish at h
  split at h
  · next hr =>
    cases h
    rw [hr] at hw
    exact visit_leaves hw _
  · next hr =>
    cases h
    rw [hr] at hw
    exact visit_leaves hw _
  · cases h
  · cases h

theorem instantiate_leaves {fuel : Nat} {providers : Array Store} {store : Store} {visit : Visit}
    (h : instantiate fuel providers store = .ok visit) : Leaves providers store visit :=
  begin_leaves (fun _ => rfl) h

theorem invoke_leaves {fuel : Nat} {providers : Array Store} {store : Store} {signals : Signals}
    {interface function : String} {args : List Value} {results : Nat} {token : Option Token}
    {visit : Visit}
    (h : invoke fuel providers store signals interface function args results token = .ok visit) :
    Leaves providers store visit :=
  begin_leaves (fun _ => receive_wiring _ _ _ _ _ _) h

end Machine

end ComponentHost
