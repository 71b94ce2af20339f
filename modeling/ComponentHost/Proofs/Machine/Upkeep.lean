import ComponentHost.Proofs.Machine.Chain

/-! # The limit for memories through a run

A store keeps its limit for memories, and its memories stay within it, whatever runs: `Machine.Persists`
compares the stores of a machine with those that a run has made of them, one by one. -/
set_option autoImplicit false

namespace ComponentHost

namespace Store

/-- What stays as it was in a store, whatever runs in it and with whatever token. -/
structure Persists (before after : Store) : Prop where
  maxMemoryBytes : after.maxMemoryBytes = before.maxMemoryBytes
  bounded : before.Bounded → after.Bounded

variable {before after s t u : Store}

theorem Persists.refl (store : Store) : store.Persists store := ⟨rfl, id⟩

theorem Persists.trans (h : s.Persists t) (h' : t.Persists u) : s.Persists u :=
  ⟨h'.maxMemoryBytes.trans h.maxMemoryBytes, h'.bounded ∘ h.bounded⟩

theorem Evolves.persists (h : before.Evolves after) : before.Persists after :=
  ⟨h.maxMemoryBytes, h.bounded⟩

theorem withToken_persists (store : Store) (token : Option Token) :
    store.Persists { store with token } := ⟨rfl, id⟩

theorem receive_persists (store : Store) (interface function : String) (args : List Value)
    (results : Nat) (token : Option Token) :
    store.Persists (store.receive interface function args results token).store := by
  rcases store.receive_evolves interface function args results token with h | h
  · exact h.persists
  · exact (store.withToken_persists token).trans h.persists

end Store

namespace Machine

/-- The stores of a machine have become those of another one, at the same places. -/
structure Persists (m m' : Machine) : Prop where
  size : m'.stores.size = m.stores.size
  store : ∀ site, (m.store site).Persists (m'.store site)

variable {m m' m'' : Machine} {site : Nat} {store : Store}

theorem Persists.of_eq (h : m'.stores = m.stores) : m.Persists m' where
  size := congrArg Array.size h
  store := fun site => by
    have he : m'.store site = m.store site := congrArg (·.getD site default) h
    rw [he]
    exact .refl _

theorem Persists.trans (h : m.Persists m') (h' : m'.Persists m'') : m.Persists m'' where
  size := h'.size.trans h.size
  store := fun site => (h.store site).trans (h'.store site)

theorem put_persists (h : (m.store site).Persists store) : m.Persists (m.put site store) where
  size := m.size_put site store
  store := fun other => by
    rw [store_put]
    split
    · next he => exact he.1 ▸ h
    · exact .refl _

theorem unwind_persists (m : Machine) : m.Persists m.unwind where
  size := m.size_unwind
  store := fun site => by
    rw [unwind_store]
    split
    · exact (m.store site).withToken_persists none
    · exact .refl _

theorem stop_persists (trap : Trap) (h : (m.store site).Persists store) :
    m.Persists (m.stop site store trap).machine :=
  (put_persists (h.trans (store.withToken_persists none))).trans (unwind_persists _)

theorem begin_persists (m : Machine) (site : Nat) {start : Store → Progress}
    (hstart : ∀ s : Store, s.Persists (start s).store) :
    m.Persists (m.begin site start).machine := by
  have h := hstart (m.store site)
  rw [begin_eq]
  cases hp : start (m.store site) with
  | go store thread =>
    rw [hp] at h
    exact (put_persists h).trans (.of_eq rfl)
  | call store | finish store | trap store =>
    rw [hp] at h
    exact stop_persists _ h

/-- Every step keeps the limits of the stores. -/
theorem step_persists (m : Machine) : m.Persists m.step.machine := by
  have hbehind : ∀ outer, m.Persists (m.behind outer) := fun _ => .of_eq rfl
  have hstep := m.step_stepped
  generalize m.step = next at hstep ⊢
  cases hstep with
  | rests => exact .of_eq rfl
  | stops trap _ he => exact (hbehind _).trans (stop_persists trap he.persists)
  | goes _ he => exact ((hbehind _).trans (put_persists he.persists)).trans (.of_eq rfl)
  | @finishes _ _ outer _ _ _ he =>
    have hput := (hbehind outer).trans (put_persists he.persists)
    unfold reply
    split <;> exact hput.trans (.of_eq rfl)
  | @asks site provider _ thread' outer store interface function args results _ he =>
    have hput := (hbehind outer).trans (put_persists he.persists)
    unfold forward
    split
    · exact hput.trans (.of_eq rfl)
    · have hcall : m.Persists { (m.behind outer).put site store with calls := ⟨site, thread'⟩ :: outer } :=
        hput.trans (.of_eq rfl)
      refine hcall.trans (begin_persists _ _ fun store' => ?_)
      exact store'.receive_persists interface function args results store.token

/-! ## Runs -/

/-- A property of stores that their limits decide. -/
def Persistent (P : Store → Prop) : Prop := ∀ before after, before.Persists after → P before → P after

section Runs

variable {P : Store → Prop} {providers : Array Store} {signals : Signals} {start : Store → Progress}

theorem Persists.forall_mem (h : m.Persists m') (hP : Persistent P) (hm : ∀ store ∈ m.stores, P store) :
    ∀ store ∈ m'.stores, P store := by
  intro store hs
  obtain ⟨i, hi, rfl⟩ := Array.mem_iff_getElem.mp hs
  have hi' : i < m.stores.size := h.size ▸ hi
  have hpersists := h.store i
  rw [Machine.store, Machine.store, Array.getD_eq_getD_getElem?, Array.getD_eq_getD_getElem?,
    Array.getElem?_eq_getElem hi, Array.getElem?_eq_getElem hi'] at hpersists
  exact hP _ _ hpersists (hm _ (Array.getElem_mem hi'))

theorem begin_forall (hP : Persistent P) (hp : ∀ p ∈ providers, P p) (hs : P store)
    (hstart : ∀ s : Store, s.Persists (start s).store) :
    ∀ s ∈ ((atRest providers store signals).begin providers.size start).machine.stores, P s := by
  refine (begin_persists _ _ hstart).forall_mem hP fun other ho => ?_
  rcases Array.mem_push.mp ho with ho | rfl
  · exact hp other ho
  · exact hs

/-- What is so of all stores when a run starts is so of them at every machine that it passes through. -/
theorem begin_passes_forall (hP : Persistent P) (hp : ∀ p ∈ providers, P p) (hs : P store)
    (hstart : ∀ s : Store, s.Persists (start s).store)
    (hm : ((atRest providers store signals).begin providers.size start).Passes m) :
    ∀ store ∈ m.stores, P store :=
  hm.induction (P := fun next => ∀ store ∈ next.machine.stores, P store)
    (fun m _ h => m.step_persists.forall_mem hP h) (begin_forall hP hp hs hstart)

theorem size_begin (hstart : ∀ s : Store, s.Persists (start s).store) :
    ((atRest providers store signals).begin providers.size start).machine.stores.size =
      providers.size + 1 := by
  rw [(begin_persists _ _ hstart).size, atRest, Array.size_push]

/-- And it is so of all stores that a visit takes out of the run. -/
theorem begin_visit_forall {fuel : Nat} {visit : Visit} (hP : Persistent P) (hp : ∀ p ∈ providers, P p)
    (hs : P store) (hstart : ∀ s : Store, s.Persists (start s).store)
    (h : finish fuel ((atRest providers store signals).begin providers.size start) = .ok visit) :
    P visit.store ∧ ∀ p ∈ visit.providers, P p := by
  -- the number of stores is carried along, since a visit takes its store out by its place
  have hlast : ∀ m : Machine, m.stores.size = providers.size + 1 ∧ (∀ store ∈ m.stores, P store) →
      ∀ result, P (m.visit result).store ∧ ∀ p ∈ (m.visit result).providers, P p := by
    rintro m ⟨hsize, hall⟩ result
    exact forall_visit (fun h => by omega) hall result
  have hstep : ∀ m : Machine, (m.stores.size = providers.size + 1 ∧ ∀ store ∈ m.stores, P store) →
      m.step.machine.stores.size = providers.size + 1 ∧ ∀ store ∈ m.step.machine.stores, P store :=
    fun m h => ⟨m.step_persists.size.trans h.1, m.step_persists.forall_mem hP h.2⟩
  rcases finish_cases (P := fun next => next.machine.stores.size = providers.size + 1 ∧
      ∀ store ∈ next.machine.stores, P store) (fun m _ => hstep m)
      ⟨size_begin hstart, begin_forall hP hp hs hstart⟩ h with ⟨m, values, hm, rfl⟩ | ⟨m, trap, hm, rfl⟩
  · exact hlast m hm _
  · exact hlast m hm _

end Runs

end Machine

end ComponentHost
