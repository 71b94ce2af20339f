import ComponentHost.Proofs.Machine.Doors
import ComponentHost.Proofs.Machine.Waits

/-! # Functions that are asked for

Linking looks at the names of imports only; the functions of an import are looked for when they are called.
Whatever is called is a function that the importer declares, with the types that it declares. A provider that
offers the function with these types lets the call in and serves it; one that has no such function turns it
down at once. -/
set_option autoImplicit false

namespace ComponentHost

/-! ## Functions that are offered -/

/-- The traps that say that a function is missing from a component, or has another type than it is called
with. -/
def Trap.isMismatch : Trap → Bool
  | .missingFunction _ _ | .notFunction _ _ | .argumentCount _ _ | .resultCount _ _ => true
  | trap => trap.isMisfit

theorem Trap.isForeign_of_mismatch {trap : Trap} (h : trap.isMismatch = true) : trap.isForeign = true := by
  cases trap <;> first | rfl | cases h

namespace Component

/-- A component exports an interface with a function of a type. -/
def Offers (c : Component) (interface function : String) (type : Signature) : Prop :=
  ∃ callee, c.member? interface function = some (.func callee type)

variable {c : Component} {interface function : String} {type : Signature}

/-- A function that a component exports is one of its own, of the type that it is exported with. -/
theorem SoundExports.offers (h : c.SoundExports) (ho : c.Offers interface function type) :
    ∃ lift : Lift, lift.type = type ∧ c.member? interface function = some (.func (.lifted lift) type) := by
  obtain ⟨callee, hm⟩ := ho
  have hmember := hm
  unfold Component.member? at hmember
  split at hmember
  · next members he =>
    have hi := Entries.mem_of_lookup he
    have hf := Entries.mem_of_lookup hmember
    cases h.sound _ hi with
    | interface _ hsound =>
      obtain ⟨lift, rfl, ht⟩ :=
        Extern.eq_lifted_of_isRunnable (hsound _ hf) (Extern.isRunnable_of_mem (h.runnable _ hi) hf)
      exact ⟨lift, ht, hm⟩
  · cases hmember

end Component

namespace Store

variable {store : Store} {interface function : String} {type : Component.Signature} {args : List Value}

/-- A function that a component does not export is not found. -/
theorem receive_unoffered (h : ∀ type, ¬ store.component.Offers interface function type) (args : List Value)
    (results : Nat) (token : Option Token) :
    store.receive interface function args results token = .trap store (.missingFunction interface function) ∨
      store.receive interface function args results token = .trap store (.notFunction interface function) := by
  unfold receive
  split
  · exact .inl rfl
  · next hm => exact absurd ⟨_, hm⟩ (h _)
  · next hm => exact absurd ⟨_, hm⟩ (h _)
  · exact .inr rfl

/-- A call of a function that is offered comes in with arguments of its types, and is served for results of
its types. -/
theorem receive_offered (hs : store.component.SoundExports)
    (ho : store.component.Offers interface function type) (ha : Value.HaveTypes args type.params)
    (token : Option Token) :
    (store.receive interface function args type.results.length token).Serves type.results token ∧
      (store.receive interface function args type.results.length token).Within Pending.Fits ∧
      ∀ left trap, store.receive interface function args type.results.length token = .trap left trap →
        trap.isMismatch = false := by
  obtain ⟨lift, rfl, hm⟩ := hs.offers ho
  refine ⟨receive_serves hm args _ token, receive_within Pending.fits_closed store ?_ _ _, ?_⟩
  · intro lift' type' hm' memory realloc
    cases hm.symm.trans hm'
    exact Placement.ofArguments_fits ha memory realloc
  · intro left trap hr
    unfold receive at hr
    rw [hm] at hr
    unfold enter at hr
    dsimp only at hr
    split at hr
    · next hl => exact absurd (List.Forall₂.length_eq ha) hl
    · split at hr
      · next hl => exact absurd rfl hl
      · split at hr <;> cases hr
        rfl

end Store

/-! ## Functions that are declared -/

namespace Machine

variable {m m' : Machine} {site : Nat} {store : Store}

/-- In every store, and in every instance that is being made, the functions of other components are those that
the component of the store lowers. -/
structure Lowered (m : Machine) : Prop where
  stores : ∀ site, (m.store site).Lowered
  calls : ∀ call ∈ m.calls, call.thread.Within (Pending.Builds (m.store call.site).component)

theorem component_of_wiring (hw : m'.wiring = m.wiring) (site : Nat) :
    (m'.store site).component = (m.store site).component := by
  have h := m'.store_wiring site
  rw [hw, ← store_wiring] at h
  exact congrArg Prod.fst h

theorem put_lowered (h : ∀ site, (m.store site).Lowered) (hs : store.Lowered) (other : Nat) :
    ((m.put site store).store other).Lowered := by
  rw [store_put]
  split
  · exact hs
  · exact h other

theorem stop_lowered (h : ∀ site, (m.store site).Lowered) (hs : store.Lowered) (trap : Trap) (other : Nat) :
    ((m.stop site store trap).machine.store other).Lowered := by
  have hstopped : ({ store with token := none } : Store).Lowered := hs.of_eq rfl rfl
  have hput : ((m.put site { store with token := none }).store other).Lowered := put_lowered h hstopped other
  rw [stop, Next.machine, unwind_store]
  split
  · exact hput.of_eq rfl rfl
  · exact hput

end Machine

/-- What a step leaves of the functions in the stores. -/
def Next.Lowered : Next → Prop
  | .more m => m.Lowered
  | .done m _ | .failed m _ | .blocked m => ∀ site, (m.store site).Lowered

namespace Machine

variable {m m' : Machine} {site provider : Nat} {store : Store} {thread thread' : Thread} {outer : List Call}

/-- A machine with a store put back, and the same calls but for the innermost. -/
theorem Lowered.put (h : m.Lowered) {calls : List Call} (hc : calls ⊆ m.calls) (hs : store.Lowered)
    (hw : store.wiring = (m.store site).wiring) (ht : thread.Within (Pending.Builds (m.store site).component)) :
    ({ m.put site store with calls := ⟨site, thread⟩ :: calls } : Machine).Lowered where
  stores := put_lowered h.stores hs
  calls := fun call hm => by
    have hcomponent : ((m.put site store).store call.site).component = (m.store call.site).component :=
      component_of_wiring (put_wiring hw) call.site
    have hcall : call.thread.Within (Pending.Builds (m.store call.site).component) := by
      rcases List.mem_cons.mp hm with rfl | hm
      · exact ht
      · exact h.calls call (hc hm)
    rwa [← hcomponent] at hcall

theorem begin_lowered (h : m.Lowered) {start : Store → Progress}
    (hw : (start (m.store site)).store.wiring = (m.store site).wiring)
    (hs : (start (m.store site)).store.Lowered)
    (ht : (start (m.store site)).Within (Pending.Builds (m.store site).component)) :
    (m.begin site start).Lowered := by
  rw [begin_eq]
  generalize start (m.store site) = p at hw hs ht
  cases p with
  | go left thread => exact h.put (List.Subset.refl _) hs hw ht.1
  | call left | finish left => exact stop_lowered h.stores hs .stuck
  | trap left trap => exact stop_lowered h.stores hs trap

/-- A call that gets into a store adds no function to it. -/
theorem receive_lowered (h : m.Lowered) (interface function : String) (args : List Value) (results : Nat)
    (token : Option Token) :
    (m.begin provider fun store => store.receive interface function args results token).Lowered := by
  have hw := receive_wiring (m.store provider) interface function args results token
  refine begin_lowered h hw ?_ ?_
  · exact (h.stores provider).of_eq (congrArg Prod.fst hw) (Store.receive_functions _ _ _ _ _ _)
  · exact Store.receive_within (Pending.builds_closed _) _ (fun _ _ _ _ _ => trivial) _ _

/-- The innermost call goes on in its store, and adds no function that is not lowered. -/
theorem Lowered.advance (h : m.Lowered) (hm : m.calls = ⟨site, thread⟩ :: outer) :
    ((m.store site).advance thread).store.Lowered ∧
      ((m.store site).advance thread).Within (Pending.Builds (m.store site).component) := by
  have hthread := h.calls _ (hm ▸ List.mem_cons_self)
  exact ⟨Store.advance_lowered (h.stores site) hthread,
    Store.advance_within (Pending.builds_closed _) _ hthread fun _ _ _ _ _ _ _ _ _ => trivial⟩

theorem Lowered.behind {call : Call} (h : m.Lowered) (hm : m.calls = call :: outer) : (m.behind outer).Lowered :=
  ⟨h.stores, fun call hc => h.calls call (hm ▸ List.mem_cons_of_mem _ hc)⟩

/-- Every step keeps that the functions of other components are those that are lowered. -/
theorem step_lowered (h : m.Lowered) : m.step.Lowered := by
  have hstep := m.step_stepped
  generalize m.step = next at hstep ⊢
  cases hstep with
  | rests => exact h.stores
  | @stops site thread outer store trap hm _ hs =>
    refine stop_lowered (m := m.behind outer) h.stores ?_ trap
    rcases hs with ⟨rfl, -⟩ | hs
    · exact h.stores site
    · have hleft := (h.advance hm).1
      generalize (m.store site).advance thread = p at hs hleft
      cases hs <;> exact hleft
  | @goes site thread thread' outer store hm he ha =>
    have hadvance := h.advance hm
    rw [ha] at hadvance
    exact (h.behind hm).put (List.Subset.refl _) hadvance.1 he.wiring hadvance.2.1
  | @finishes site thread outer store values hm he ha =>
    have hadvance := h.advance hm
    rw [ha] at hadvance
    have hstores : ∀ other, (((m.behind outer).put site store).store other).Lowered :=
      put_lowered h.stores hadvance.1
    unfold reply
    cases outer with
    | nil => exact hstores
    | cons back outer =>
      have hback : back.thread.Within (Pending.Builds (m.store back.site).component) :=
        (h.behind hm).calls back List.mem_cons_self
      refine ⟨hstores, fun call hc => ?_⟩
      have hcomponent : (((m.behind (back :: outer)).put site store).store call.site).component =
          (m.store call.site).component := component_of_wiring (put_wiring (m := m.behind _) he.wiring) call.site
      have hcall : call.thread.Within (Pending.Builds (m.store call.site).component) := by
        rcases List.mem_cons.mp hc with rfl | hc
        · exact ⟨hback.waits, fun _ => nofun⟩
        · exact (h.behind hm).calls call (List.mem_cons_of_mem _ hc)
      rwa [← hcomponent] at hcall
  | @asks site provider thread thread' outer store interface function args results hm he ha =>
    have hadvance := h.advance hm
    rw [ha] at hadvance
    have hwaiting := (h.behind hm).put (List.Subset.refl _) hadvance.1 he.wiring hadvance.2.1
    unfold forward
    split
    · exact hwaiting.stores
    · exact receive_lowered hwaiting _ _ _ _ _

section Runs

variable {providers : Array Store} {signals : Signals} {interface function : String} {args : List Value}
  {results fuel : Nat} {token : Option Token} {visit : Visit}

theorem atRest_lowered (hp : ∀ p ∈ providers, p.Lowered) (hs : store.Lowered) (signals : Signals) :
    (atRest providers store signals).Lowered := by
  have hall : ∀ other ∈ providers.push store, other.Lowered := by
    intro other hm
    rcases Array.mem_push.mp hm with hm | rfl
    · exact hp other hm
    · exact hs
  exact ⟨forall_store (P := Store.Lowered) nofun hall, nofun⟩

theorem making_lowered (hp : ∀ p ∈ providers, p.Lowered) (hs : store.Lowered) :
    (making providers store).Lowered := by
  refine begin_lowered (atRest_lowered hp hs _) rfl ?_ ⟨⟨trivial, ?_⟩, fun _ => nofun⟩
  · rw [atRest_store]
    exact hs
  · rintro _ ⟨⟩
    exact List.Subset.refl _

theorem calling_lowered (hp : ∀ p ∈ providers, p.Lowered) (hs : store.Lowered) :
    (calling providers store signals interface function args results token).Lowered :=
  receive_lowered (atRest_lowered hp hs _) _ _ _ _ _

/-- Whatever has run, the functions of other components are those that are lowered. -/
theorem finish_lowered {start : Next} (h : start.Lowered) (hf : finish fuel start = .ok visit) :
    visit.store.Lowered ∧ ∀ p ∈ visit.providers, p.Lowered := by
  rcases finish_cases (fun m _ => step_lowered) h hf with ⟨m, values, hm, rfl⟩ | ⟨m, trap, hm, rfl⟩
  · exact forall_visit (fun _ => nofun) (forall_mem_stores hm) _
  · exact forall_visit (fun _ => nofun) (forall_mem_stores hm) _

end Runs

end Machine

/-! ## Requests -/

/-- A call of an import: the store and the thread that it is made from, inside other calls, and the function
that is asked for, with the type that the import gives it. -/
structure Request where
  caller : Nat
  outer : List Call
  waiting : Thread
  provider : Nat
  interface : String
  function : String
  type : Component.Signature

namespace Machine

/-- The innermost call makes a request: its component declares the function, and the import leads to the
provider. -/
structure Requests (m : Machine) (r : Request) : Prop where
  asks : ∃ store args, m.Asks r.caller r.outer store r.waiting r.interface r.function args r.type.results.length ∧
    r.waiting.Awaits r.type args
  declared : (m.store r.caller).component.Declares r.interface r.function r.type
  linked : (m.store r.caller).links.lookup r.interface = some r.provider

/-- The provider of a request exports the function, with the type that it is called with. -/
def Offers (m : Machine) (r : Request) : Prop :=
  (m.store r.provider).component.Offers r.interface r.function r.type

/-- The stores have components that the checks have accepted, and every import of one leads to a store that
exports something under the name. -/
structure Supplied (m : Machine) : Prop where
  accepted : ∀ site, (m.store site).component.Accepted
  imports : ∀ site, ∀ import' ∈ (m.store site).component.importNames, ∃ provider,
    (m.store site).links.lookup import' = some provider ∧ import' ∈ (m.store provider).component.exportNames

end Machine

namespace Machine

variable {m m' : Machine} {r : Request} {site : Nat} {store : Store} {outer : List Call}

theorem links_of_wiring (hw : m'.wiring = m.wiring) (site : Nat) :
    (m'.store site).links = (m.store site).links := by
  have h := m'.store_wiring site
  rw [hw, ← store_wiring] at h
  exact congrArg Prod.snd h

theorem Supplied.of_wiring (h : m.Supplied) (hw : m'.wiring = m.wiring) : m'.Supplied where
  accepted := fun site => component_of_wiring hw site ▸ h.accepted site
  imports := fun site import' hi => by
    rw [component_of_wiring hw] at hi
    rw [links_of_wiring hw]
    obtain ⟨provider, hl, he⟩ := h.imports site import' hi
    exact ⟨provider, hl, component_of_wiring hw provider ▸ he⟩

theorem offers_of_wiring (hw : m'.wiring = m.wiring) : m'.Offers r ↔ m.Offers r := by
  rw [Offers, Offers, component_of_wiring hw]

/-- What a call of an import asks for is a request: the importer declares the function, and the import leads
to a provider. -/
theorem Asks.request (hs : m.Supplied) (hl : m.Lowered) {waiting : Thread} {interface function : String}
    {args : List Value} {results : Nat}
    (ha : m.Asks site outer store waiting interface function args results) :
    ∃ provider type, m.Requests ⟨site, outer, waiting, provider, interface, function, type⟩ ∧
      waiting.Awaits type args ∧ results = type.results.length := by
  obtain ⟨thread, hm, -, hadvance⟩ := ha.thread
  have hadvanced := hl.advance hm
  have hevolves := (m.store site).advance_evolves thread
  rw [hadvance] at hadvanced hevolves
  obtain ⟨hlowered, hwithin⟩ := hadvanced
  obtain ⟨-, -, type, memory, realloc, hf, hawaits, rfl⟩ := hwithin
  obtain ⟨memory', realloc', hstep⟩ := hlowered _ _ _ _ hf
  rw [show (Progress.call store waiting interface function args _).store.component = _ from
    congrArg Prod.fst hevolves.wiring] at hstep
  have hdeclares := (hs.accepted site).declares hstep
  obtain ⟨provider, hlookup, -⟩ := hs.imports site interface hdeclares.mem_importNames
  exact ⟨provider, type, ⟨⟨store, args, ha, hawaits⟩, hdeclares, hlookup⟩, hawaits, rfl⟩

/-- A request for a function that the provider does not have at all fails at once. -/
theorem Requests.fails (hr : m.Requests r) (ho : m.Ordered)
    (hn : ∀ type, ¬ (m.store r.provider).component.Offers r.interface r.function type) :
    ∃ m' trap, m.step = .failed m' trap ∧
      (trap = .missingFunction r.interface r.function ∨ trap = .notFunction r.interface r.function) := by
  obtain ⟨store, args, ha, -⟩ := hr.asks
  rw [ha.step_begin ho hr.linked, begin_eq, awaiting_store ho hr.linked]
  rcases Store.receive_unoffered hn args r.type.results.length store.token with hreceive | hreceive
  · rw [hreceive]
    exact ⟨_, _, rfl, .inl rfl⟩
  · rw [hreceive]
    exact ⟨_, _, rfl, .inr rfl⟩

end Machine

end ComponentHost
