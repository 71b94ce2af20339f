import ComponentHost.Proofs.Dependency.Instances
import ComponentHost.Proofs.Dependency.Lookups
import ComponentHost.Proofs.Dependency.Resolution
import ComponentHost.Proofs.Machine.Forward

/-! # Shared dependencies

A linked script has one instance of a provider for every name that it reaches: it is looked up once, made
once behind those that it imports, and every importer of the name is linked to it. Whoever calls a function
of the name calls it there. -/
set_option autoImplicit false

namespace ComponentHost

namespace Plan

variable {sources : Sources} {script : Component} {plan : Plan} {links : List (String × Nat)}

/-! ## Where imports lead -/

/-- Every import of a component leads to the number of the provider of its name. -/
def Leads (plan : Plan) (wiring : Component × List (String × Nat)) : Prop :=
  ∀ import' ∈ wiring.1.importNames, ∃ number,
    wiring.2.lookup import' = some number ∧ plan.Numbers import' number

theorem leads_of_names {component : Component} (hn : links.map Prod.fst = component.importNames)
    (hl : ∀ l ∈ links, plan.Numbers l.1 l.2) : plan.Leads (component, links) := by
  intro import' hi
  rw [← hn] at hi
  cases hf : links.lookup import' with
  | none =>
    obtain ⟨l, hm, rfl⟩ := List.mem_map.mp hi
    exact absurd rfl (bne_iff_ne.mp (List.lookup_eq_none_iff.mp hf l hm))
  | some number => exact ⟨number, rfl, hl _ (Entries.mem_of_lookup hf)⟩

theorem Settled.leads {number : Nat} {p : Provider} (h : Settled sources plan number p) :
    plan.Leads p.wiring := leads_of_names h.names fun l hl => (h.links l hl).2

theorem Complete.leads (h : Complete sources script plan links) : plan.Leads (script, links) :=
  leads_of_names h.names h.numbers

/-- The names of the providers, in the order of their numbers. -/
def names (plan : Plan) : List String := plan.providers.map Provider.name

theorem names_getElem? {name : String} {number : Nat} :
    plan.names[number]? = some name ↔ plan.Numbers name number := by
  rw [names, List.getElem?_map, Option.map_eq_some_iff]
  exact Iff.rfl

theorem Sound.names_nodup {stack : List String} (h : plan.Sound sources stack) : plan.names.Nodup := by
  rw [List.nodup_iff_getElem?_ne_getElem?]
  intro i k hik hk he
  rw [List.getElem?_eq_getElem hk] at he
  have hi := names_getElem?.mp he
  have hk := names_getElem?.mp (List.getElem?_eq_getElem hk)
  exact Nat.ne_of_lt hik (h.unique hi hk)

/-- Every name that a complete plan has come to is that of a provider. -/
theorem Complete.lookup_eq_some_iff (h : Complete sources script plan links) {name : String} {slot : Slot} :
    plan.slots.lookup name = some slot ↔
      ∃ number, plan.names[number]? = some name ∧ slot = .loaded number := by
  cases slot with
  | loading =>
    rw [h.sound.loading]
    refine iff_of_false List.not_mem_nil ?_
    rintro ⟨number, -, he⟩
    cases he
  | loaded number =>
    rw [h.sound.loaded, ← names_getElem?]
    exact ⟨fun hn => ⟨number, hn, rfl⟩, fun ⟨_, hn, he⟩ => Slot.loaded.inj he ▸ hn⟩

theorem Complete.mem_names_iff_lookup (h : Complete sources script plan links) {name : String} :
    name ∈ plan.names ↔ plan.slots.lookup name ≠ none := by
  rw [List.mem_iff_getElem?, Option.ne_none_iff_exists']
  constructor
  · rintro ⟨number, hn⟩
    exact ⟨_, h.lookup_eq_some_iff.mpr ⟨number, hn, rfl⟩⟩
  · rintro ⟨slot, hs⟩
    obtain ⟨number, hn, -⟩ := h.lookup_eq_some_iff.mp hs
    exact ⟨number, hn⟩

/-- The lookups of a plan are those of its providers' names, each once. -/
theorem lookups_perm_names (hp : ofScript sources script = (plan, .ok links)) :
    (lookups sources script).Perm plan.names := by
  have hcomplete := ofScript_ok hp
  refine (List.perm_ext_iff_of_nodup (lookups_nodup _ _) hcomplete.sound.names_nodup).mpr fun name => ?_
  rw [mem_lookups_iff hp, hcomplete.mem_names_iff_lookup]

theorem mem_names_iff (hp : ofScript sources script = (plan, .ok links)) {name : String} :
    name ∈ plan.names ↔ sources.Reaches script name := by
  constructor
  · intro hn
    exact reaches_of_mem_lookups ((lookups_perm_names hp).mem_iff.mpr hn)
  · intro hreach
    obtain ⟨number, hn⟩ := (ofScript_ok hp).numbers_of_reaches hreach
    exact List.mem_of_getElem? (names_getElem?.mpr hn)

/-! ## Runs over the stores of a plan -/

/-- Stores are those of the first providers of a plan, and one more store has its imports among them. -/
structure Hosts (plan : Plan) (stores : Array Store) (store : Store) : Prop where
  wiring : stores.map Store.wiring =
    ((plan.providers.take stores.size).map Provider.wiring).toArray
  leads : plan.Leads store.wiring
  links : ∀ l ∈ store.links, l.2 < stores.size

variable {stores : Array Store} {store : Store}

theorem Hosts.providers (h : plan.Hosts stores store) {number : Nat} (hn : number < stores.size) :
    ∃ p, plan.providers[number]? = some p ∧ p.wiring = (stores[number]).wiring := by
  have hw := congrArg (·[number]?) h.wiring
  simp only [Array.getElem?_map, Array.getElem?_eq_getElem hn, Option.map_some, List.getElem?_toArray,
    List.getElem?_map] at hw
  rw [List.getElem?_take_of_lt hn] at hw
  obtain ⟨p, hp, he⟩ := Option.map_eq_some_iff.mp hw.symm
  exact ⟨p, hp, he⟩

theorem Hosts.inOrder (h : plan.Hosts stores store) (hd : LinksDown plan.providers) :
    Machine.InOrder stores := by
  rw [← List.take_append_drop stores.size plan.providers] at hd
  exact Linked.inOrder_of_wiring hd.left h.wiring

/-- In a run over stores that a plan hosts, every call of an import goes to the provider of its name. -/
theorem Hosts.forwards {signals : Signals} {start : Store → Progress} {m : Machine} {site : Nat}
    {outer : List Call} {left : Store} {waiting : Thread} {import' function : String}
    {args : List Value} {results : Nat} (h : plan.Hosts stores store) (hs : plan.Sound sources [])
    (hd : LinksDown plan.providers) (hstart : ∀ store, (start store).store.wiring = store.wiring)
    (hm : ((Machine.atRest stores store signals).begin stores.size start).Passes m)
    (ha : m.Asks site outer left waiting import' function args results)
    (hi : import' ∈ (m.store site).component.importNames) :
    ∃ number, plan.Numbers import' number ∧
      sources.Provides import' (m.store number).component ∧
      m.Forwards site outer left waiting number import' function args results := by
  obtain ⟨hordered, hw⟩ := Machine.begin_passes (h.inOrder hd) h.links hstart hm
  have hsize : m.stores.size = stores.size + 1 := by
    have := congrArg Array.size hw
    rwa [Machine.wiring, Array.size_map, Array.size_map, Array.size_push] at this
  have hprovider : ∀ i < stores.size, ∃ p, plan.providers[i]? = some p ∧
      p.wiring = (m.store i).wiring := by
    intro i hlt
    obtain ⟨p, hp, he⟩ := h.providers hlt
    refine ⟨p, hp, he.trans ?_⟩
    rw [Machine.store_wiring, hw, Array.getD_eq_getD_getElem?, Array.getElem?_map,
      Array.getElem?_push_lt hlt]
    rfl
  have hsite : site < m.stores.size := by
    obtain ⟨thread, hcalls, -⟩ := ha.thread
    refine hordered.bound site ?_
    rw [Machine.chain, hcalls]
    exact List.mem_cons_self
  have hleads : plan.Leads (m.store site).wiring := by
    rcases Nat.lt_or_ge site stores.size with hlt | hge
    · obtain ⟨p, hp, he⟩ := hprovider site hlt
      exact he ▸ (hs.settled site p hp).leads
    · obtain rfl : site = stores.size := by omega
      have he : (m.store stores.size).wiring = store.wiring := by
        rw [Machine.store_wiring, hw, Array.getD_eq_getD_getElem?, Array.getElem?_map,
          Array.getElem?_push_size]
        rfl
      exact he ▸ h.leads
  obtain ⟨number, hl, hn⟩ := hleads import' hi
  refine ⟨number, hn, ?_, ha.forwards hordered hl⟩
  have hlt : number < site := hordered.stores site _ (Entries.mem_of_lookup hl)
  obtain ⟨p, hp, he⟩ := hprovider number (by omega)
  obtain ⟨q, hq, rfl⟩ := hn
  cases hp.symm.trans hq
  have hc : p.component = (m.store number).component := congrArg Prod.fst he
  exact hc ▸ (hs.settled number p hp).provides

end Plan

namespace Linked

variable {fuel : Nat} {maxMemoryBytes : Option Nat} {sources : Sources} {script : Component}
  {linked : Linked}

/-! ## What a linked script has -/

/-- The runs of the machine that a linked script is part of: instances of it are made, and they are called,
in the stores of its providers, whatever has become of these. -/
inductive Uses (linked : Linked) : Next → Prop where
  | making {stores : Array Store}
      (hs : stores.map Store.wiring = linked.providers.map Store.wiring) (maxMemoryBytes : Option Nat) :
      Uses linked (Machine.making stores (.fresh linked.script maxMemoryBytes linked.links))
  | calling {stores : Array Store} {store : Store}
      (hs : stores.map Store.wiring = linked.providers.map Store.wiring)
      (hw : store.wiring = (linked.script, linked.links)) (signals : Signals)
      (interface function : String) (args : List Value) (results : Nat) (token : Option Token) :
      Uses linked (Machine.calling stores store signals interface function args results token)

/-- How the instance with a number was made: for the provider of a name, in the stores of those before it,
which are all that the provider imports. -/
structure Made (fuel : Nat) (sources : Sources) (maxMemoryBytes : Option Nat) (script : Component)
    (linked : Linked) (names : List String) (number : Nat) (name : String) (p : Provider)
    (before : Array Store) (visit : Visit) : Prop where
  component : sources.provider name = .ok p.component
  imports : ∀ import' ∈ p.component.importNames, ∃ earlier < number,
    names[earlier]? = some import' ∧ p.links.lookup import' = some earlier
  stage : instantiateAll fuel maxMemoryBytes #[]
    ((Plan.ofScript sources script).1.providers.take number) = .ok (.ok before)
  size : before.size = number
  run : Machine.instantiate fuel before (p.store maxMemoryBytes) = .ok visit
  result : ∃ values, visit.result = .ok values
  next : instantiateAll fuel maxMemoryBytes #[]
    ((Plan.ofScript sources script).1.providers.take (number + 1)) =
      .ok (.ok (visit.providers.push visit.store))
  kept : (linked.providers[number]?).map Store.wiring = some p.wiring

/-- A function that an import declares, of whatever types, is asked for under both names, with the values that the
words of a call stand for, whenever a component calls it that may call others. -/
structure Declares (import' : String) (members : List (String × Component.ExternType))
    (function : String) (type : Component.Signature) : Prop where
  callee : (Component.Extern.ofTypes [import'] members).lookup function =
    some (.func (.imported [import', function]) type)
  asks : ∀ (store : Store) (address : Nat) (memory realloc : Option Nat) (words : List UInt32)
    (waits : List Pending) (depth : Nat),
    store.functions[address]? = some (.lowered (.imported [import', function]) type memory realloc) →
    store.leavable = true →
    store.Asked import' function type memory realloc words waits depth (store.invoke address words waits depth)

/-- What a linked script shares: an instance for each of these names, in this order. -/
structure Shares (fuel : Nat) (sources : Sources) (maxMemoryBytes : Option Nat) (script : Component)
    (linked : Linked) (names : List String) : Prop where
  reached : ∀ name, name ∈ names ↔ sources.Reaches script name
  once : names.Nodup
  located : (Plan.lookups sources script).Perm names
  loaded : ∀ name slot, (Plan.ofScript sources script).1.slots.lookup name = some slot ↔
    ∃ number, names[number]? = some name ∧ slot = .loaded number
  size : linked.providers.size = names.length
  made : ∀ number name, names[number]? = some name →
    ∃ p before visit, Made fuel sources maxMemoryBytes script linked names number name p before visit
  links : ∀ import' ∈ script.importNames, ∃ number,
    names[number]? = some import' ∧ linked.links.lookup import' = some number
  functions : ∀ c, sources.OnTheWay script c → ∀ import' t, (import', t) ∈ c.imports →
    ∃ members, t = .interface members ∧ ∀ function t', members.lookup function = some t' →
      ∃ type, t' = .func type ∧ Declares import' members function type
  forwards : ∀ start, Stage fuel sources maxMemoryBytes script start ∨ linked.Uses start →
    ∀ m, start.Passes m → ∀ site outer store waiting import' function args results,
      m.Asks site outer store waiting import' function args results →
      (import' ∈ (m.store site).component.importNames) → ∃ number,
        names[number]? = some import' ∧ sources.Provides import' (m.store number).component ∧
        m.Forwards site outer store waiting number import' function args results

theorem declares_of_lookup {import' function : String}
    {members : List (String × Component.ExternType)} {type : Component.Signature}
    (h : members.lookup function = some (.func type)) : Declares import' members function type where
  callee := by
    rw [Component.ofTypes_lookup, h]
    rfl
  asks := fun _ _ _ _ words waits depth hf hl => Store.invoke_imported hf hl words waits depth

/-! ## The parts -/

section Parts

variable {plan : Plan}

theorem made_of_numbers (hp : Plan.ofScript sources script = (plan, .ok linked.links))
    (hi : instantiateAll fuel maxMemoryBytes #[] plan.providers = .ok (.ok linked.providers))
    {number : Nat} {name : String} (hn : plan.Numbers name number) :
    ∃ p before visit,
      Made fuel sources maxMemoryBytes script linked plan.names number name p before visit := by
  have hsound := (Plan.ofScript_ok hp).sound
  obtain ⟨p, hget, rfl⟩ := hn
  have hsettled := hsound.settled number p hget
  obtain ⟨hlt, rfl⟩ := List.getElem?_eq_some_iff.mp hget
  have hsplit : plan.providers = plan.providers.take number ++
      plan.providers[number] :: plan.providers.drop (number + 1) := by
    rw [← List.drop_eq_getElem_cons hlt, List.take_append_drop]
  have hall := hi
  rw [hsplit] at hall
  obtain ⟨before, hbefore, hrest⟩ := instantiateAll_split hall
  rw [instantiateAll] at hrest
  split at hrest
  · cases hrest
  · next visit hv =>
    split at hrest
    · cases hrest
    · next values hr =>
      refine ⟨plan.providers[number], before, visit, ?_⟩
      constructor
      case component => exact (Sources.provider_eq_ok_iff _ _).mpr ⟨hsettled.provides, hsettled.exported⟩
      case imports =>
        intro import' him
        obtain ⟨earlier, hl, hnum⟩ := hsettled.leads import' him
        exact ⟨earlier, (hsettled.links _ (Entries.mem_of_lookup hl)).1, Plan.names_getElem?.mpr hnum, hl⟩
      case stage => rw [hp]; exact hbefore
      case size =>
        rw [size_of_instantiateAll hbefore, List.length_take]
        omega
      case run => exact hv
      case result => exact ⟨values, hr⟩
      case next =>
        rw [hp, ← List.take_append_getElem hlt, instantiateAll_append hbefore, instantiateAll, hv]
        dsimp only
        rw [hr]
        rfl
      case kept =>
        have hw := congrArg (·[number]?) (wiring_of_instantiateAll hi)
        simp only [Array.getElem?_map, List.getElem?_toArray, List.getElem?_map, hget] at hw
        exact hw

theorem hosts_uses (hp : Plan.ofScript sources script = (plan, .ok linked.links))
    (hi : instantiateAll fuel maxMemoryBytes #[] plan.providers = .ok (.ok linked.providers))
    {stores : Array Store} {store : Store}
    (hs : stores.map Store.wiring = linked.providers.map Store.wiring)
    (hw : store.wiring = (script, linked.links)) : plan.Hosts stores store := by
  have hall := hs.trans (wiring_of_instantiateAll hi)
  have hsize : stores.size = plan.providers.length := by simpa using congrArg Array.size hall
  refine ⟨?_, ?_, ?_⟩
  · rw [hsize, List.take_length]
    exact hall
  · rw [hw]
    exact (Plan.ofScript_ok hp).leads
  · have hlinks : store.links = linked.links := congrArg Prod.snd hw
    have hnumbers := (Plan.ofScript_ok hp).numbers
    rw [hlinks, hsize]
    exact fun l hl => (hnumbers l hl).lt

theorem hosts_stage (hp : Plan.ofScript sources script = (plan, .ok linked.links))
    {before after : List Provider} {p : Provider} {stores : Array Store}
    (hb : plan.providers = before ++ p :: after)
    (hi : instantiateAll fuel maxMemoryBytes #[] before = .ok (.ok stores)) :
    plan.Hosts stores (p.store maxMemoryBytes) := by
  have hsize := size_of_instantiateAll hi
  have hsettled := (Plan.ofScript_ok hp).sound.settled before.length p (by simp [hb])
  refine ⟨?_, hsettled.leads, ?_⟩
  · rw [hsize, hb, List.take_left]
    exact wiring_of_instantiateAll hi
  · rw [hsize]
    exact fun l hl => (hsettled.links l hl).1

/-- Every run that a linked script is part of begins in the stores of its plan. -/
theorem begins_hosted (hp : Plan.ofScript sources script = (plan, .ok linked.links))
    (hi : instantiateAll fuel maxMemoryBytes #[] plan.providers = .ok (.ok linked.providers))
    (hscript : linked.script = script) {start : Next}
    (hs : Stage fuel sources maxMemoryBytes script start ∨ linked.Uses start) :
    ∃ stores store signals f, plan.Hosts stores store ∧
      (∀ store, (f store).store.wiring = store.wiring) ∧
      start = (Machine.atRest stores store signals).begin stores.size f := by
  rcases hs with ⟨before, p, after, stores, hb, hbefore, rfl⟩ | hs
  · rw [hp] at hb
    exact ⟨stores, _, _, _, hosts_stage hp hb hbefore, fun _ => rfl, rfl⟩
  · subst hscript
    cases hs with
    | making hstores =>
      exact ⟨_, _, _, _, hosts_uses hp hi hstores rfl, fun _ => rfl, rfl⟩
    | calling hstores hw =>
      exact ⟨_, _, _, _, hosts_uses hp hi hstores hw, fun _ => Machine.receive_wiring _ _ _ _ _ _, rfl⟩

end Parts

/-- A linked script has an instance for every name that it reaches. Each is looked up and made once, behind
those that its provider imports; every importer of its name is linked to it; and whatever function of the
name is called, at whatever depth, is called there, with the arguments and results unchanged. -/
theorem dependencies_shared (h : link fuel sources maxMemoryBytes script = .ok (.ok linked)) :
    Shares fuel sources maxMemoryBytes script linked (Plan.ofScript sources script).1.names := by
  obtain ⟨plan, hp, hi, hscript⟩ := link_ok h
  have hcomplete := Plan.ofScript_ok hp
  rw [hp]
  constructor
  case reached => exact fun name => Plan.mem_names_iff hp
  case once => exact hcomplete.sound.names_nodup
  case located => exact Plan.lookups_perm_names hp
  case loaded =>
    intro name slot
    rw [hp]
    exact hcomplete.lookup_eq_some_iff
  case size => rw [size_of_instantiateAll hi, Plan.names, List.length_map]
  case made => exact fun number name hn => made_of_numbers hp hi (Plan.names_getElem?.mp hn)
  case links =>
    intro import' him
    obtain ⟨number, hl, hn⟩ := hcomplete.leads import' him
    exact ⟨number, Plan.names_getElem?.mpr hn, hl⟩
  case functions =>
    intro c hc import' t him
    obtain ⟨members, rfl, hall⟩ := hcomplete.resolvable.functions c hc _ him
    refine ⟨members, rfl, fun function t' hl => ?_⟩
    obtain ⟨type, rfl⟩ := hall _ (Entries.mem_of_lookup hl)
    exact ⟨type, rfl, declares_of_lookup hl⟩
  case forwards =>
    intro start hs m hm site outer store waiting import' function args results ha him
    obtain ⟨stores, main, signals, f, hhosts, hf, rfl⟩ := begins_hosted hp hi hscript hs
    have hd := (Plan.ofScript_numbered sources script).1.links
    rw [hp] at hd
    obtain ⟨number, hn, hprovides, hforwards⟩ := hhosts.forwards hcomplete.sound hd hf hm ha him
    exact ⟨number, Plan.names_getElem?.mpr hn, hprovides, hforwards⟩

/-! ## A diamond -/

/-- The number that a run has come to after so many steps, with nothing else. -/
def numberAfter? (start : Next) (n : Nat) : Option UInt32 :=
  match start.after n with
  | .done _ [.scalar .u32 number] => some number
  | _ => none

theorem of_numberAfter? {start : Next} {n : Nat} {number : UInt32} (h : numberAfter? start n = some number) :
    ∃ left, start.after n = .done left [.scalar .u32 number] := by
  unfold numberAfter? at h
  split at h
  · next hn =>
    cases h
    exact ⟨_, hn⟩
  · cases h

/-- What the counters are called with. -/
def counted : List Value := [.tuple [.scalar .u32 7, .option (some (.scalar .u32 9))]]

/-- Whether values are these. -/
def isCounted : List Value → Bool
  | [.tuple [.scalar .u32 a, .option (some (.scalar .u32 b))]] => a = 7 && b = 9
  | _ => false

theorem eq_counted {args : List Value} (h : isCounted args = true) : args = counted := by
  unfold isCounted at h
  split at h
  · obtain ⟨rfl, rfl⟩ : _ = (7 : UInt32) ∧ _ = (9 : UInt32) := by simpa using h
    rfl
  · cases h

/-- A call of the counter under a name, in what making an instance of it has left. -/
def counting (name : String) (visit : Visit) : Next :=
  Machine.calling visit.providers visit.store .quiet name "count" counted 1 none

/-- After so many steps of a run, a component calls the counter that it imports under a name. -/
def CountsAt (start : Next) (n site : Nat) (import' : String) : Prop :=
  ∃ m ∈ start.moreAfter? n, ∃ q ∈ m.asking?,
    (q.site, q.interface, q.function, q.results) = (site, import', "count", 1) ∧
      isCounted q.args = true ∧ import' ∈ (m.store site).component.importNames

instance (start : Next) (n site : Nat) (import' : String) : Decidable (CountsAt start n site import') := by
  unfold CountsAt
  infer_instance

/-- At some time in a run, a component calls the counter that it imports under a name, and the call goes to a
provider as it is. -/
def CountsIn (start : Next) (site : Nat) (import' : String) (provider : Nat) : Prop :=
  ∃ m outer store waiting, start.Passes m ∧ m.Asks site outer store waiting import' "count" counted 1 ∧
    m.Forwards site outer store waiting provider import' "count" counted 1

theorem Shares.countsIn {names : List String} (h : Shares fuel sources maxMemoryBytes script linked names)
    {start : Next} (hs : linked.Uses start) {n site provider : Nat} {import' : String}
    (hc : CountsAt start n site import') (hn : names[provider]? = some import') :
    CountsIn start site import' provider := by
  obtain ⟨m, hm, q, hq, hasked, hargs, himport⟩ := hc
  simp only [Prod.mk.injEq] at hasked
  obtain ⟨hsite, hinterface, hfunction, hresults⟩ := hasked
  have hpasses := Next.passes_of_moreAfter? hm
  have hasks := Machine.asks_of_asking? hq
  rw [hsite, hinterface, hfunction, hresults, eq_counted hargs] at hasks
  obtain ⟨number, hnumber, -, hforwards⟩ := h.forwards start (.inr hs) m hpasses _ _ _ _ _ _ _ _ hasks himport
  obtain ⟨hlt, -⟩ := List.getElem?_eq_some_iff.mp hn
  obtain rfl : provider = number := (List.getElem?_inj hlt h.once).mp (hn.trans hnumber.symm)
  exact ⟨m, _, _, _, hpasses, hasks, hforwards⟩

/-- The script and both sides of a diamond share what is under them: it is called from both sides, and counts on. -/
theorem diamond_shared :
    let sources := counters [("b", ["d"]), ("c", ["d"]), ("d", [])]
    let script := counter "a" ["b", "c"]
    ∃ linked, link 1000 sources none script = .ok (.ok linked) ∧
      linked.providers.size = 3 ∧ linked.links = [("b", 1), ("c", 2)] ∧
      Shares 1000 sources none script linked ["d", "b", "c"] ∧
      ∃ start left, linked.Uses start ∧ CountsIn start 1 "d" 0 ∧ CountsIn start 2 "d" 0 ∧
        start.after 1000 = .done left [.scalar .u32 16] := by
  intro sources script
  have hl : ∃ outcome ∈ (link 1000 sources none script).toOption, ∃ linked ∈ outcome.toOption,
      linked.links = [("b", 1), ("c", 2)] ∧ ∃ visit ∈ (linked.instantiate 1000 none).toOption,
        CountsAt (counting "a" visit) 35 1 "d" ∧ CountsAt (counting "a" visit) 87 2 "d" ∧
          numberAfter? (counting "a" visit) 1000 = some 16 := by
    decide +kernel
  have hnames : (Plan.ofScript sources script).1.names = ["d", "b", "c"] := by
    decide +kernel
  obtain ⟨outcome, ho, linked, hl, hlinks, visit, hv, hb, hc, hnumber⟩ := hl
  have hl := link_of_toOption ho hl
  have hshares : Shares 1000 sources none script linked ["d", "b", "c"] := hnames ▸ dependencies_shared hl
  have hleaves := Machine.instantiate_leaves (ok_of_toOption hv)
  have huses : linked.Uses (counting "a" visit) := .calling hleaves.providers hleaves.store _ _ _ _ _ _
  obtain ⟨left, hleft⟩ := of_numberAfter? hnumber
  exact ⟨linked, hl, hshares.size, hlinks, hshares, _, left, huses, hshares.countsIn huses hb rfl,
    hshares.countsIn huses hc rfl, hleft⟩

end Linked

end ComponentHost
