import ComponentHost.Proofs.Dependency.Sharing
import ComponentHost.Proofs.Machine.Answers
import ComponentHost.Proofs.Session.Contracts
import ComponentHost.Proofs.Session.Failures

/-! # Calls that find their function

A script that has been loaded has a provider for each name that is imported, and the provider exports
something under the name. Whether it is an instance with the functions that the importer declares is seen when
they are called: a call fails for that reason only if the provider does not offer the function as declared. -/
set_option autoImplicit false

namespace ComponentHost

namespace Machine

/-! ## Stores that are ready to run -/

variable {providers providers' : Array Store} {store store' : Store} {signals signals' : Signals}

/-- A store behind its providers, from which a run can start: all have what they import, and call no functions
but those that their components lower. -/
structure Ready (providers : Array Store) (store : Store) : Prop where
  supplied : (atRest providers store .quiet).Supplied
  providers : ∀ p ∈ providers, p.Lowered
  store : store.Lowered

theorem atRest_wiring (hp : providers'.map Store.wiring = providers.map Store.wiring)
    (hs : store'.wiring = store.wiring) (signals signals' : Signals) :
    (atRest providers' store' signals').wiring = (atRest providers store signals).wiring := by
  simp only [wiring, atRest, Array.map_push, hp, hs]

theorem Ready.of_wiring (h : Ready providers store)
    (hp : providers'.map Store.wiring = providers.map Store.wiring) (hs : store'.wiring = store.wiring)
    (hpl : ∀ p ∈ providers', p.Lowered) (hsl : store'.Lowered) : Ready providers' store' :=
  ⟨h.supplied.of_wiring (atRest_wiring hp hs _ _), hpl, hsl⟩

theorem Ready.heeds (h : Ready providers store) (ho : InOrder providers)
    (hl : ∀ l ∈ store.links, l.2 < providers.size) {first : Store → Progress}
    (hfirst : ∀ store, (first store).store.wiring = store.wiring)
    (hlowered : ((atRest providers store signals).begin providers.size first).Lowered)
    (hminded : ∀ start, ((atRest providers store signals).begin providers.size first).Minded start) :
    ((atRest providers store signals).begin providers.size first).Heeds where
  passes := fun m hm => by
    obtain ⟨hordered, hw⟩ := begin_passes ho hl hfirst hm
    exact ⟨hordered, h.supplied.of_wiring hw⟩
  lowered := hlowered
  minded := hminded _

end Machine

namespace Plan

variable {sources : Sources} {script : Component} {plan : Plan} {stores : Array Store} {store : Store}

/-- The stores of a plan have what they import. -/
theorem Hosts.supplied (h : plan.Hosts stores store) (hs : plan.Sound sources [])
    (ha : ∀ p ∈ plan.providers, p.component.Accepted) (hc : store.component.Accepted) (signals : Signals) :
    (Machine.atRest stores store signals).Supplied := by
  have hstore : ∀ number < stores.size, ∃ p, plan.providers[number]? = some p ∧
      p.wiring = ((Machine.atRest stores store signals).store number).wiring := by
    intro number hlt
    obtain ⟨p, hp, he⟩ := h.providers hlt
    refine ⟨p, hp, he.trans ?_⟩
    rw [Machine.atRest_store_of_getElem? store signals (Array.getElem?_eq_getElem hlt)]
  have hself : (Machine.atRest stores store signals).store stores.size = store := Machine.atRest_store ..
  have hnone : ∀ number, stores.size < number → (Machine.atRest stores store signals).store number = default := by
    intro number hlt
    have hsize : (Machine.atRest stores store signals).stores.size ≤ number := by
      simpa [Machine.atRest] using Nat.succ_le_of_lt hlt
    rw [Machine.store, Array.getD_eq_getD_getElem?, Array.getElem?_eq_none hsize]
    rfl
  have hexports : ∀ {name : String} {number : Nat}, plan.Numbers name number → number < stores.size →
      name ∈ ((Machine.atRest stores store signals).store number).component.exportNames := by
    intro name number hn hlt
    obtain ⟨p, hp, he⟩ := hstore number hlt
    obtain ⟨q, hq, rfl⟩ := hn
    cases hp.symm.trans hq
    rw [show ((Machine.atRest stores store signals).store number).component = p.component from
      (congrArg Prod.fst he).symm]
    exact (hs.settled number p hp).exported
  constructor
  · intro site
    rcases Nat.lt_trichotomy site stores.size with hlt | rfl | hgt
    · obtain ⟨p, hp, he⟩ := hstore site hlt
      have hcomponent : p.component = ((Machine.atRest stores store signals).store site).component :=
        congrArg Prod.fst he
      exact hcomponent ▸ ha p (List.mem_of_getElem? hp)
    · rw [hself]
      exact hc
    · rw [hnone site hgt]
      exact .inl rfl
  · intro site import' hi
    rcases Nat.lt_trichotomy site stores.size with hlt | rfl | hgt
    · obtain ⟨p, hp, he⟩ := hstore site hlt
      have hsettled := hs.settled site p hp
      have hleads := he ▸ hsettled.leads
      obtain ⟨number, hl, hn⟩ := hleads import' hi
      have hlinks : p.links = ((Machine.atRest stores store signals).store site).links := congrArg Prod.snd he
      have hless : number < site := (hsettled.links (import', number) (hlinks ▸ Entries.mem_of_lookup hl)).1
      exact ⟨number, hl, hexports hn (Nat.lt_trans hless hlt)⟩
    · rw [hself] at hi ⊢
      obtain ⟨number, hl, hn⟩ := h.leads import' hi
      exact ⟨number, hl, hexports hn (h.links _ (Entries.mem_of_lookup hl))⟩
    · rw [hnone site hgt] at hi
      exact absurd hi List.not_mem_nil

end Plan

namespace Linked

variable {fuel : Nat} {maxMemoryBytes : Option Nat} {sources : Sources} {script : Component} {linked : Linked}

theorem instantiateAll_lowered {stores : Array Store} {providers : List Provider}
    (h : instantiateAll fuel maxMemoryBytes #[] providers = .ok (.ok stores)) : ∀ s ∈ stores, s.Lowered :=
  instantiateAll_forall (fun hs hv => Machine.finish_lowered (Machine.making_lowered hs (Store.fresh_lowered _ _ _)) hv)
    (fun _ hm => absurd hm (Array.not_mem_empty _)) h

/-- A script that has been linked has what it imports, and so have its providers. -/
theorem ready_of_link (hc : sources.Compiled script)
    (h : link fuel sources maxMemoryBytes script = .ok (.ok linked)) (limit : Option Nat) :
    Machine.Ready linked.providers (.fresh linked.script limit linked.links) := by
  obtain ⟨plan, hp, hi, hscript⟩ := link_ok h
  have hcomplete := Plan.ofScript_ok hp
  have hhosts : plan.Hosts linked.providers (.fresh linked.script limit linked.links) :=
    hosts_uses hp hi rfl (by rw [hscript]; rfl)
  refine ⟨hhosts.supplied hcomplete.sound (fun p hm => ?_) (hscript ▸ hc.script) _,
    instantiateAll_lowered hi, Store.fresh_lowered _ _ _⟩
  obtain ⟨number, hget⟩ := List.mem_iff_getElem?.mp hm
  have hnumbers : plan.Numbers p.name number := ⟨p, hget, rfl⟩
  have hreach := (Plan.mem_names_iff hp).mp (List.mem_of_getElem? (Plan.names_getElem?.mpr hnumbers))
  exact hc.accepted (.inr ⟨p.name, hreach, (hcomplete.sound.settled number p hget).provides⟩)

end Linked

/-! ## Sessions -/

/-- That scripts and instances have what they import, as a law for sessions. -/
def Law.ready : Law where
  boundary := fun b => ∀ linked, b.content = .active linked →
    ∀ limit, Machine.Ready linked.providers (.fresh linked.script limit linked.links)
  entry := fun _ _ => True
  running := fun b _ store => ∀ linked, b.content = .active linked → Machine.Ready linked.providers store

/-- What a run leaves of a boundary whose instance it was about. -/
theorem Law.ready_visit {b : Boundary} {linked : Linked} {store : Store} {visit : Visit}
    (hc : b.content = .active linked) (hs : Machine.Ready linked.providers store)
    (hv : Machine.Leaves linked.providers store visit)
    (hl : visit.store.Lowered ∧ ∀ p ∈ visit.providers, p.Lowered) :
    Law.ready.Keeps b (b.withProviders visit.providers) ∧
      ∀ entry, Law.ready.running (b.withProviders visit.providers) entry visit.store := by
  unfold Boundary.withProviders
  rw [hc]
  refine ⟨⟨fun hb linked' hc' limit => ?_, fun _ hentry => hentry, fun entry other ho linked' hc' => ?_⟩,
    fun entry linked' hc' => ?_⟩
  · cases hc'
    exact (hb linked hc limit).of_wiring hv.providers rfl hl.2 (Store.fresh_lowered _ _ _)
  · cases hc'
    exact (ho linked hc).of_wiring hv.providers rfl hl.2 (ho linked hc).store
  · cases hc'
    exact hs.of_wiring hv.providers hv.store hl.2 hl.1

theorem Law.ready_stable : Law.ready.Stable where
  fades := fun h => {
    boundary := fun hb linked hc => hb linked (h.active hc)
    entry := fun _ hentry => hentry
    running := fun _ _ hs linked hc => hs linked (h.active hc) }
  load := by
    intro fs fuel settings id scriptId request outcome h linked hc
    obtain ⟨manifest, script, hs, hl⟩ := Boundary.load_linked h hc
    exact Linked.ready_of_link (Compiler.compile_compiled manifest hs) hl
  resolve := fun _ _ => trivial
  instantiate := by
    intro b b' fuel entry r hb _ h
    have hvisit : ∀ {linked : Linked} {visit : Visit}, b.content = .active linked →
        linked.instantiate fuel b.maxMemoryBytes = .ok visit →
        Law.ready.Keeps b (b.withProviders visit.providers) ∧
          ∀ entry, Law.ready.running (b.withProviders visit.providers) entry visit.store := by
      intro linked visit hc hv
      have hready := hb linked hc b.maxMemoryBytes
      exact ready_visit hc hready (Machine.instantiate_leaves hv)
        (Machine.finish_lowered (Machine.making_lowered hready.providers hready.store) hv)
    cases Boundary.instantiate_cases h with
    | unloaded => exact ⟨.refl _ b, fun _ => nofun⟩
    | trapped hc hv => exact ⟨(hvisit hc hv).1, fun _ => nofun⟩
    | made hc hv =>
      refine ⟨(hvisit hc hv).1, fun store hs => ?_⟩
      cases hs
      exact (hvisit hc hv).2 entry
  execute := by
    intro b fuel store entry argument token signals e hb hs h
    cases Boundary.execute_cases h with
    | unloaded | cancelled | missing => exact ⟨.refl _ b, hs⟩
    | @run linked visit hc hv =>
      have hready := hs linked hc
      have hvisit := ready_visit hc hready (Machine.invoke_leaves hv)
        (Machine.finish_lowered (Machine.calling_lowered hready.providers hready.store) hv)
      exact ⟨hvisit.1, hvisit.2 entry⟩

/-! ## Providers that export the names of imports -/

namespace Linked

/-- A provider of a script exports something under a name. -/
def Exports (linked : Linked) (provider : Nat) (name : String) : Prop :=
  ∃ store, linked.providers[provider]? = some store ∧ name ∈ store.component.exportNames

/-- Every import of a script and of its providers leads to a provider that exports something under its name. -/
structure Supplied (linked : Linked) : Prop where
  script : ∀ import' ∈ linked.script.importNames, ∃ provider,
    linked.links.lookup import' = some provider ∧ linked.Exports provider import'
  providers : ∀ (site : Nat) (store : Store), linked.providers[site]? = some store →
    ∀ import' ∈ store.component.importNames, ∃ provider,
      store.links.lookup import' = some provider ∧ linked.Exports provider import'

theorem supplied_of_ready {linked : Linked} {limit : Option Nat}
    (h : Machine.Ready linked.providers (.fresh linked.script limit linked.links)) (ho : linked.InOrder) :
    linked.Supplied := by
  have himports := h.supplied.imports
  have hexports : ∀ {provider : Nat} {name : String}, provider < linked.providers.size →
      name ∈ ((Machine.atRest linked.providers (.fresh linked.script limit linked.links) .quiet).store
        provider).component.exportNames → linked.Exports provider name := by
    intro provider name hlt hn
    have hget := Array.getElem?_eq_getElem hlt
    rw [Machine.atRest_store_of_getElem? _ _ hget] at hn
    exact ⟨_, hget, hn⟩
  constructor
  · intro import' hi
    have hself := himports linked.providers.size import'
    rw [Machine.atRest_store] at hself
    obtain ⟨provider, hl, hn⟩ := hself hi
    exact ⟨provider, hl, hexports (ho.links _ (Entries.mem_of_lookup hl)) hn⟩
  · intro site store hget import' hi
    have hstore := himports site import'
    rw [Machine.atRest_store_of_getElem? _ _ hget] at hstore
    obtain ⟨provider, hl, hn⟩ := hstore hi
    have hbefore : provider < site := by
      refine ho.providers site (import', provider) ?_
      rw [Array.getD_eq_getD_getElem?, hget]
      exact Entries.mem_of_lookup hl
    exact ⟨provider, hl, hexports (Nat.lt_trans hbefore (Array.getElem?_eq_some_iff.mp hget).1) hn⟩

end Linked

namespace Session

variable {s : Session}

/-- A run of a session is one in which the calls under way mind what they were made for. -/
theorem Starts.heeds {start : Next} {n : Nat} (hw : s.Wired) (hr : s.Upholds Law.ready)
    (hc : s.Upholds Law.contracts) (hs : s.Starts start n) : start.Heeds := by
  cases hs with
  | @making of b entry boundary linked hof hb hactive =>
    obtain ⟨hproviders, hlinks⟩ := hw.boundaries _ _ hb _ hactive
    have hready := hr.boundaries _ _ hb _ hactive boundary.maxMemoryBytes
    exact hready.heeds hproviders hlinks (fun _ => rfl) (Machine.making_lowered hready.providers hready.store)
      Machine.making_minded
  | @calling of b entry store boundary linked hof hb hactive argument token signals =>
    have hlinks := hw.handles _ (mem_of_handle? hof) _ _ _ rfl _ hb _ hactive
    have hready := hr.handles _ (mem_of_handle? hof) _ _ rfl hb _ hactive
    obtain ⟨hsound, hprovides⟩ := hc.handles _ (mem_of_handle? hof) _ _ rfl hb
    refine hready.heeds (hw.boundaries _ _ hb _ hactive).providers hlinks
      (fun _ => Machine.receive_wiring _ _ _ _ _ _) (Machine.calling_lowered hready.providers hready.store)
      (Machine.calling_minded (Store.receive_within Pending.fits_closed _ (fun lift type hm memory realloc => ?_) _ _))
    obtain ⟨-, lift', ht, hm'⟩ := hsound.member? hprovides
    cases hm.symm.trans hm'
    rw [ht]
    exact Placement.ofArguments_fits (.cons (.string argument) .nil) memory realloc

/-- When a script has been loaded, every import of it and of its providers leads to a provider that exports
something under the name. Whatever runs later, a function of an import is called with the types with which the
importer declares it. A run fails because such a function is missing or has another type only in a call of a
function that its provider does not offer with these types; and it does, at once, if the provider has no function
of the name. -/
theorem forwards_fail_only_unoffered {fs : FileSystem} {fuel : Nat} {ops : List SessionStep}
    (h : (start fs fuel).run ops = .ok s) :
    (∀ (b : Nat) (boundary : Boundary) (linked : Linked), s.boundaries[b]? = some boundary →
      boundary.content = .active linked → linked.Supplied) ∧
    ∀ start n, s.Starts start n → ∀ m, start.Passes m →
      (∀ caller outer store waiting interface function args results,
        m.Asks caller outer store waiting interface function args results → ∃ provider type,
          m.Requests ⟨caller, outer, waiting, provider, interface, function, type⟩ ∧
            Value.HaveTypes args type.params ∧ results = type.results.length) ∧
      (∀ m' trap, m.step = .failed m' trap → trap.isMismatch = true →
        ∃ r, m.Handles start r ∧ ¬ m.Offers r) ∧
      ∀ r, m.Requests r → (∀ type, ¬ (m.store r.provider).component.Offers r.interface r.function type) →
        ∃ m' trap, m.step = .failed m' trap ∧
          (trap = .missingFunction r.interface r.function ∨ trap = .notFunction r.interface r.function) := by
  have hk := start_kept fs fuel
  have hw := (start_wired fs fuel).run hk h
  have hr := upholds_of_run Law.ready_stable h
  have hc := upholds_of_run Law.contracts_stable h
  refine ⟨fun b boundary linked hb hactive => ?_, fun start n hs m hm => ?_⟩
  · exact Linked.supplied_of_ready (hr.boundaries b boundary hb linked hactive none)
      (hw.boundaries b boundary hb linked hactive)
  · have hheeds := hs.heeds hw hr hc
    obtain ⟨hordered, hsupplied⟩ := hheeds.passes m hm
    obtain ⟨hlowered, hminded⟩ := hheeds.machine hm
    refine ⟨fun caller outer store waiting interface function args results ha => ?_,
      fun m' trap hf ht => hminded.mismatch hordered hsupplied hlowered hf ht,
      fun r hr hn => hr.fails hordered hn⟩
    obtain ⟨provider, type, hrequests, hawaits, hresults⟩ := ha.request hsupplied hlowered
    exact ⟨provider, type, hrequests, hawaits.args, hresults⟩

/-! ## An import with its function, and one that lacks it -/

/-- Whether values are a list of two bytes. -/
def isTwoBytes : List Value → Bool
  | [.list [.scalar .u8 _, .scalar .u8 _]] => true
  | _ => false

theorem types_of_isTwoBytes {args : List Value} {types : List Component.ValType} (h : isTwoBytes args = true)
    (ht : Value.HaveTypes args types) : types = [.list (.scalar .u8)] := by
  unfold isTwoBytes at h
  split at h
  · cases ht with
    | cons hlist hnil =>
      cases hnil
      cases hlist with
      | list hitems =>
        cases hitems _ List.mem_cons_self
        rfl
  · cases h

theorem exists_supplied :
    ∃ s, (start (pairFiles providerText) 1000).run (loadPair ++ makePair) = .ok s ∧
      (∃ linked ∈ s.linked? 0, linked.script.importNames = ["d"]) ∧
      ∃ first ∈ s.callOf? "i" none .quiet, ∃ m ∈ first.moreAfter? 12, ∃ asking ∈ m.asking?,
        isTwoBytes asking.args = true :=
  exists_pair plain_provider <| by
    rw [callerText, providerText, String.toList_ofList, String.toList_ofList]
    decide +kernel

theorem exists_lacking :
    ∃ s, (start (pairFiles lackingText) 1000).run (loadPair ++ makePair) = .ok s ∧
      ∃ first ∈ s.callOf? "i" none .quiet, ∃ m ∈ first.moreAfter? 12, m.step.trap? = some (.missingFunction "d" "f") :=
  exists_pair plain_lacking <| by
    rw [callerText, lackingText, String.toList_ofList, String.toList_ofList]
    decide +kernel

/-- A script is linked to the component that it imports from, and asks it for the function that it declares, with a list
of bytes. Where the component has no such function, the script is linked as well, and fails when it asks. -/
theorem import_supplied_when_loaded :
    (∃ s boundary linked provider first n m asking provider' type,
      (start (pairFiles providerText) 1000).run (loadPair ++ makePair) = .ok s ∧
      s.boundaries[0]? = some boundary ∧ boundary.content = .active linked ∧
      linked.links.lookup "d" = some provider ∧ linked.Exports provider "d" ∧
      s.Starts first n ∧ first.Passes m ∧ m.asking? = some asking ∧
      m.Requests ⟨asking.site, asking.outer, asking.waiting, provider', asking.interface, asking.function, type⟩ ∧
      type.params = [.list (.scalar .u8)] ∧ Value.HaveTypes asking.args type.params ∧
      asking.results = type.results.length) ∧
    ∃ s first n m m' r, (start (pairFiles lackingText) 1000).run (loadPair ++ makePair) = .ok s ∧
      s.Starts first n ∧ first.Passes m ∧ m.step = .failed m' (.missingFunction "d" "f") ∧
      m.Handles first r ∧ ¬ m.Offers r := by
  obtain ⟨s, hrun, ⟨linked, hlinked, himports⟩, first, hfirst, m, hm, asking, hasking, hbytes⟩ := exists_supplied
  obtain ⟨t, hrun', first', hfirst', m', hm', hmissing⟩ := exists_lacking
  obtain ⟨boundary, hb, hc⟩ := of_linked? hlinked
  obtain ⟨_, _, _, _, _, hof, hboundary, hactive, rfl⟩ := callOf?_cases hfirst
  obtain ⟨_, _, _, _, _, hof', hboundary', hactive', rfl⟩ := callOf?_cases hfirst'
  have hstarts := Starts.calling hof hboundary hactive "" none .quiet
  have hstarts' := Starts.calling hof' hboundary' hactive' "" none .quiet
  have hpasses := Next.passes_of_moreAfter? hm
  have hpasses' := Next.passes_of_moreAfter? hm'
  obtain ⟨hsupplied, hruns⟩ := forwards_fail_only_unoffered hrun
  obtain ⟨-, hruns'⟩ := forwards_fail_only_unoffered hrun'
  refine ⟨?supplied, ?lacking⟩
  case supplied =>
    obtain ⟨provider, hl, he⟩ := (hsupplied 0 boundary linked hb hc).script "d" (himports ▸ List.mem_singleton_self "d")
    obtain ⟨hasks, -⟩ := hruns _ _ hstarts m hpasses
    obtain ⟨provider', type, hrequests, htypes, hresults⟩ := hasks _ _ _ _ _ _ _ _ (Machine.asks_of_asking? hasking)
    exact ⟨s, boundary, linked, provider, _, _, m, asking, provider', type, hrun, hb, hc, hl, he, hstarts, hpasses,
      hasking, hrequests, types_of_isTwoBytes hbytes htypes, htypes, hresults⟩
  case lacking =>
    obtain ⟨left, hstep⟩ := Next.failed_of_trap? hmissing
    obtain ⟨-, hfails, -⟩ := hruns' _ _ hstarts' m' hpasses'
    obtain ⟨r, hhandles, hoffers⟩ := hfails left _ hstep rfl
    exact ⟨t, _, _, m', left, r, hrun', hstarts', hpasses', hstep, hhandles, hoffers⟩

def providedFiles : FileSystem :=
  ⟨⟨"/"⟩, [(["d"], .file (Text.Utf8.encode "(component (instance) (export \"d\" (instance 0)))"))]⟩

/-- A script that a run has loaded, with what is computed from it. -/
theorem exists_firstLinked {fs : FileSystem} {fuel : Nat} {ops : List SessionStep} {α : Type}
    {f : Linked → Option α} {a : α}
    (h : (((start fs fuel).run ops).toOption.bind (linked? · 0)).bind f = some a) :
    ∃ s boundary linked, (start fs fuel).run ops = .ok s ∧ s.boundaries[0]? = some boundary ∧
      boundary.content = .active linked ∧ f linked = some a := by
  obtain ⟨linked, hlinked, ha⟩ := Option.bind_eq_some_iff.mp h
  obtain ⟨s, hs, hs'⟩ := Option.bind_eq_some_iff.mp hlinked
  obtain ⟨boundary, hb, hc⟩ := of_linked? hs'
  refine ⟨s, boundary, linked, ?_, hb, hc, ha⟩
  cases hrun : (start fs fuel).run ops with
  | error stall =>
    rw [hrun] at hs
    cases hs
  | ok s' =>
    rw [hrun] at hs
    cases hs
    rfl

/-- Loads a script that imports an instance with a function from the one file, whose instance has none. -/
def loadLacking : List SessionStep :=
  [.load "c" (.level .debug) ⟨⟨"/"⟩, "(component (import \"d\" (instance (export \"f\" (func)))))", ["d"]⟩]

/-- A component that exports an instance without functions. -/
def lackingDefinitions : List (Wat.Definition Nat) := [
  .interface none [] [],
  .export none "d" .interface ⟨0, []⟩]

/-- The one function that a script imports, where the provider of an import does not have a function. -/
def lacked? (linked : Linked) (interface function : String) : Option (String × String) :=
  (linked.links.lookup interface).bind fun provider => (linked.providers[provider]?).bind fun store =>
    match linked.script.imports, store.component.member? interface function with
    | [(import', .interface [(member, .func ⟨[], []⟩)])], none => some (import', member)
    | _, _ => none

/-- A script that has been loaded can import a function that its provider, which exports an instance under the
name, does not have. A call of it fails. -/
theorem import_without_function :
    (∃ s boundary linked provider store, (start providedFiles 10).run loadLacking = .ok s ∧
      s.boundaries[0]? = some boundary ∧ boundary.content = .active linked ∧
      linked.script.Declares "d" "f" ⟨[], []⟩ ∧ linked.links.lookup "d" = some provider ∧
      linked.providers[provider]? = some store ∧ ∀ type, ¬ store.component.Offers "d" "f" type) ∧
    ∃ lacking ∈ (Component.check lackingDefinitions).toOption,
    ∃ calling ∈ (Component.check callingDefinitions).toOption,
    ∃ outcome ∈ (Linked.link 100 ⟨bareFiles, ⟨⟨"/"⟩, []⟩, [⟨⟨"/d"⟩, lacking⟩]⟩ none calling).toOption,
    ∃ linked ∈ outcome.toOption,
      (callingSession calling linked).trapsOf [.execute "i" "" none none] =
        some [some (.missingFunction "d" "f")] := by
  refine ⟨?_, by decide +kernel⟩
  have hall : (((start providedFiles 10).run loadLacking).toOption.bind (linked? · 0)).bind
      (fun linked => lacked? linked "d" "f") = some ("d", "f") := by
    decide +kernel
  obtain ⟨s, boundary, linked, hrun, hb, hc, hlinked⟩ := exists_firstLinked hall
  obtain ⟨provider, hl, hlinked⟩ := Option.bind_eq_some_iff.mp hlinked
  obtain ⟨store, hp, hlinked⟩ := Option.bind_eq_some_iff.mp hlinked
  split at hlinked
  · next import' member hi hm =>
    obtain ⟨rfl, rfl⟩ := Prod.mk.inj (Option.some.inj hlinked)
    refine ⟨s, boundary, linked, provider, store, hrun, hb, hc, ?_, hl, hp, fun type ho => ?_⟩
    · exact ⟨_, hi ▸ List.mem_singleton_self _, List.mem_singleton_self _⟩
    · obtain ⟨callee, hcallee⟩ := ho
      cases hm.symm.trans hcallee
  · cases hlinked

end Session

end ComponentHost
