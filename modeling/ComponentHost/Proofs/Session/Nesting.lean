import ComponentHost.Proofs.Boundary.Presence
import ComponentHost.Proofs.Dependency.Resolution
import ComponentHost.Proofs.Machine.Forward
import ComponentHost.Proofs.Session.Law
import ComponentHost.Proofs.Session.Loading

/-! # Nested calls

In a session, whatever is run is run over stores that are in order: the providers of every active boundary
are, and every instance of its script is linked to them only. So the calls of a run hold every provider at
most once, and none of them ever waits for itself. -/
set_option autoImplicit false

namespace ComponentHost

namespace Boundary

/-! ## Boundaries -/

/-- The providers of a boundary are in order, as long as it is active. -/
def InOrder (b : Boundary) : Prop := ∀ linked, b.content = .active linked → linked.InOrder

/-- A store is linked to providers of a boundary only, as long as the boundary is active. -/
def Serves (b : Boundary) (store : Store) : Prop :=
  ∀ linked, b.content = .active linked → ∀ l ∈ store.links, l.2 < linked.providers.size

/-- A boundary goes over to one that is linked as it is, or is not active. -/
def KeepsLinks (b b' : Boundary) : Prop :=
  ∀ linked', b'.content = .active linked' → ∃ linked, b.content = .active linked ∧
    linked'.links = linked.links ∧
    linked'.providers.map Store.wiring = linked.providers.map Store.wiring

variable {b b' : Boundary}

theorem KeepsLinks.of_eq (h : b'.content = b.content) : b.KeepsLinks b' :=
  fun linked' hc => ⟨linked', h ▸ hc, rfl, rfl⟩

theorem Fades.keepsLinks (h : b.Fades b') : b.KeepsLinks b' :=
  fun linked' hc => ⟨linked', h.active hc, rfl, rfl⟩

theorem KeepsLinks.inOrder (h : b.KeepsLinks b') (hb : b.InOrder) : b'.InOrder := by
  intro linked' hc'
  obtain ⟨linked, hc, hl, hp⟩ := h linked' hc'
  obtain ⟨hproviders, hlinks⟩ := hb linked hc
  have hsize : linked'.providers.size = linked.providers.size := by
    simpa using congrArg Array.size hp
  refine ⟨?_, ?_⟩
  · have hwiring : (⟨linked'.providers, [], .quiet⟩ : Machine).wiring =
        (⟨linked.providers, [], .quiet⟩ : Machine).wiring := hp
    exact Machine.InOrder.of_wiring hproviders hwiring
  · rwa [hl, hsize]

theorem KeepsLinks.serves (h : b.KeepsLinks b') {store : Store} (hb : b.Serves store) :
    b'.Serves store := by
  intro linked' hc'
  obtain ⟨linked, hc, -, hp⟩ := h linked' hc'
  have hsize : linked'.providers.size = linked.providers.size := by
    simpa using congrArg Array.size hp
  rw [hsize]
  exact hb linked hc

theorem keepsLinks_withProviders {linked : Linked} {providers : Array Store}
    (hc : b.content = .active linked)
    (hp : providers.map Store.wiring = linked.providers.map Store.wiring) :
    b.KeepsLinks (b.withProviders providers) := by
  intro linked' hc'
  unfold withProviders at hc'
  rw [hc] at hc'
  cases hc'
  exact ⟨linked, hc, rfl, hp⟩

/-- A new instance is linked as the script is. -/
theorem instantiate_keepsLinks {fuel : Nat} {r : Except EntryPointError Store} (hb : b.InOrder)
    (h : b.instantiate fuel = .ok (b', r)) :
    b.KeepsLinks b' ∧ ∀ store, r = .ok store → b.Serves store := by
  cases instantiate_cases h with
  | unloaded => exact ⟨.of_eq rfl, fun _ => nofun⟩
  | trapped hc hv =>
    exact ⟨keepsLinks_withProviders hc (Machine.instantiate_leaves hv).providers, fun _ => nofun⟩
  | @made linked visit hc hv =>
    have hleaves := Machine.instantiate_leaves hv
    refine ⟨keepsLinks_withProviders hc hleaves.providers, fun store hs linked' hc' => ?_⟩
    cases hs
    cases hc.symm.trans hc'
    have hlinks : visit.store.links = linked.links := congrArg Prod.snd hleaves.store
    rw [hlinks]
    exact (hb linked hc).links

theorem execute_keepsLinks {fuel : Nat} {store : Store} {entry : EntryPoint} {argument : String}
    {token : Option Token} {signals : Signals} {e : Execution}
    (h : b.execute fuel store entry argument token signals = .ok e) :
    b.KeepsLinks e.boundary ∧ e.store.links = store.links := by
  cases execute_cases h with
  | unloaded | cancelled | missing => exact ⟨.of_eq rfl, rfl⟩
  | run hc hv =>
    have hleaves := Machine.invoke_leaves hv
    exact ⟨keepsLinks_withProviders hc hleaves.providers, congrArg Prod.snd hleaves.store⟩

theorem load_inOrder {fs : FileSystem} {fuel : Nat} {settings : Settings} {id scriptId : Id}
    {request : LoadRequest} {outcome : LoadOutcome}
    (h : load fs fuel settings id scriptId request = .ok (.ok outcome)) : outcome.boundary.InOrder := by
  intro linked hc
  obtain ⟨manifest, script, -, hl⟩ := load_linked h hc
  exact Linked.inOrder_of_link hl

/-! ## Runs that do not end -/

theorem load_stall {fs : FileSystem} {fuel : Nat} {settings : Settings} {id scriptId : Id}
    {request : LoadRequest} {stall : Stall}
    (h : load fs fuel settings id scriptId request = .error stall) : stall = .unfinished := by
  unfold load at h
  split at h
  · cases h
  · dsimp only at h
    split at h
    · cases h
    · split at h
      · next ha =>
        cases h
        exact (attempt_stall ha).1
      · cases h

theorem instantiate_stall {fuel : Nat} {stall : Stall} (hb : b.InOrder)
    (h : b.instantiate fuel = .error stall) : stall = .unfinished := by
  unfold instantiate at h
  split at h
  · next linked hc =>
    obtain ⟨hproviders, hlinks⟩ := hb linked hc
    split at h
    · next hv =>
      cases h
      exact Machine.finish_stall (Machine.making_neverBlocks hproviders hlinks) hv
    · split at h <;> cases h
  · cases h

theorem execute_stall {fuel : Nat} {store : Store} {entry : EntryPoint} {argument : String}
    {token : Option Token} {signals : Signals} {stall : Stall} (hb : b.InOrder) (hs : b.Serves store)
    (h : b.execute fuel store entry argument token signals = .error stall) : stall = .unfinished := by
  unfold execute at h
  split at h
  · next linked hc =>
    split at h
    · cases h
    · split at h
      · cases h
      · split at h
        · next hv =>
          cases h
          exact Machine.finish_stall
            (Machine.calling_neverBlocks (hb linked hc).providers (hs linked hc) _ _ _ _ _ _) hv
        · cases h
  · cases h

end Boundary

/-- That providers are in order, and instances linked to them only, as a law for sessions. -/
def Law.wiring : Law where
  boundary := Boundary.InOrder
  entry := fun _ _ => True
  running := fun b _ store => b.Serves store

theorem Boundary.KeepsLinks.keeps {b b' : Boundary} (h : b.KeepsLinks b') : Law.wiring.Keeps b b' where
  boundary := h.inOrder
  entry := fun _ hentry => hentry
  running := fun _ _ hs => h.serves hs

theorem Law.wiring_stable : Law.wiring.Stable where
  fades := fun h => h.keepsLinks.keeps
  load := Boundary.load_inOrder
  resolve := fun _ _ => trivial
  instantiate := fun hb _ hi =>
    have hmade := Boundary.instantiate_keepsLinks hb hi
    ⟨hmade.1.keeps, fun store hr => hmade.1.serves (hmade.2 store hr)⟩
  execute := by
    intro b fuel store entry argument token signals e hb hs he
    obtain ⟨hkeeps, hlinks⟩ := Boundary.execute_keepsLinks he
    refine ⟨hkeeps.keeps, fun linked hc => ?_⟩
    rw [hlinks]
    exact hkeeps.serves hs linked hc

namespace Session

/-! ## Sessions -/

/-- If a handle is one to an instance, its store is linked to providers of its boundary only. -/
def Fits (s : Session) (h : Handle) : Prop :=
  ∀ b entry store, h = .running b entry store →
    ∀ boundary, s.boundaries[b]? = some boundary → boundary.Serves store

/-- The providers of all boundaries are in order, and all instances are linked to them. -/
structure Wired (s : Session) : Prop where
  boundaries : ∀ (b : Nat) (boundary : Boundary), s.boundaries[b]? = some boundary → boundary.InOrder
  handles : ∀ e ∈ s.handles, s.Fits e.2

variable {s t : Session} {a : SessionAnswer}

theorem wired_iff : s.Wired ↔ s.Upholds Law.wiring := by
  refine ⟨fun hw => ⟨hw.boundaries, fun e he b boundary hb hn => ?_⟩, fun hs => ⟨hs.boundaries, ?_⟩⟩
  · have hf := hw.handles e he
    revert hb hf
    cases e.2 with
    | running _ entry store =>
      intro hb hf
      cases hb
      exact hf b entry store rfl boundary hn
    | context | module | compiled | entry | observer | token => exact fun _ _ => trivial
  · intro e he b entry store hr boundary hn
    have hh := hs.handles e he b boundary (by rw [hr]; rfl) hn
    rwa [hr] at hh

theorem start_wired (fs : FileSystem) (fuel : Nat) : (start fs fuel).Wired := ⟨nofun, nofun⟩

namespace Wired

theorem step {op : SessionStep} (hw : s.Wired) (hk : s.Kept []) (h : s.step op = .ok (t, a)) : t.Wired :=
  wired_iff.mpr ((wired_iff.mp hw).step Law.wiring_stable hk h)

theorem run {ops : List SessionStep} (hw : s.Wired) (hk : s.Kept []) (h : s.run ops = .ok t) :
    t.Wired :=
  wired_iff.mpr ((wired_iff.mp hw).run Law.wiring_stable hk h)

/-- A step that does not end has run out of steps of the machine. -/
theorem step_stall (hw : s.Wired) {op : SessionStep} {stall : Stall} (h : s.step op = .error stall) :
    stall = .unfinished := by
  cases op with
  | load name settings request =>
    simp only [Session.step, Session.load] at h
    split at h
    · cases h
    · split at h
      · next hl =>
        cases h
        exact Boundary.load_stall hl
      · cases h
      · cases h
  | instantiate of name =>
    simp only [Session.step, Session.instantiate] at h
    split at h
    · split at h
      · cases h
      · next boundary hb =>
        split at h
        · next hi =>
          cases h
          exact Boundary.instantiate_stall (hw.boundaries _ boundary hb) hi
        · cases h
        · cases h
    · cases h
  | execute of argument token cancelAfter =>
    simp only [Session.step, Session.execute] at h
    split at h
    · next b entry store hof =>
      split at h
      · cases h
      · next boundary hb =>
        split at h
        · next he =>
          cases h
          exact Boundary.execute_stall (hw.boundaries b boundary hb)
            (hw.handles _ (mem_of_handle? hof) b entry store rfl boundary hb) he
        · cases h
    · cases h
  | wait of monitor released token cancelAfter =>
    simp only [Session.step, Session.wait] at h
    (repeat' split at h) <;> cases h
  | _ =>
    simp only [Session.step, same] at h
    (repeat' split at h) <;> cases h

end Wired

/-! ## Nested calls -/

/-- The runs of the machine that a session can start, with the number of the providers that they are run
over: making an instance of a script through an entry point, and calling an instance. -/
inductive Starts (s : Session) : Next → Nat → Prop where
  | making {of : String} {b : Nat} {entry : EntryPoint} {boundary : Boundary} {linked : Linked}
      (hof : s.handle? of = some (.entry b entry)) (hb : s.boundaries[b]? = some boundary)
      (hc : boundary.content = .active linked) :
      Starts s (Machine.making linked.providers
        (.fresh linked.script boundary.maxMemoryBytes linked.links)) linked.providers.size
  | calling {of : String} {b : Nat} {entry : EntryPoint} {store : Store} {boundary : Boundary}
      {linked : Linked} (hof : s.handle? of = some (.running b entry store))
      (hb : s.boundaries[b]? = some boundary) (hc : boundary.content = .active linked)
      (argument : String) (token : Option Token) (signals : Signals) :
      Starts s (Machine.calling linked.providers store signals entry.interface entry.function
        [.string argument] 1 token) linked.providers.size

theorem Starts.neverBlocks (hw : s.Wired) {start : Next} {n : Nat} (hs : s.Starts start n) :
    start.NeverBlocks n := by
  cases hs with
  | making hof hb hc =>
    obtain ⟨hproviders, hlinks⟩ := hw.boundaries _ _ hb _ hc
    exact Machine.making_neverBlocks hproviders hlinks
  | calling hof hb hc argument token signals =>
    have hlinks := hw.handles _ (mem_of_handle? hof) _ _ _ rfl _ hb _ hc
    exact Machine.calling_neverBlocks (hw.boundaries _ _ hb _ hc).providers hlinks _ _ _ _ _ _

/-- Nothing that is run waits for itself: while the providers of a script are made that has been linked,
while an instance of the script is made, and while one is called, the calls under way hold different
providers, no more than there are, and none waits for one that is held. -/
theorem nested_calls_hold_apart {fs : FileSystem} {fuel : Nat} {ops : List SessionStep}
    (h : (start fs fuel).run ops = .ok s) :
    (∀ fuel sources maxMemoryBytes script linked start,
      Linked.link fuel sources maxMemoryBytes script = .ok (.ok linked) →
      Linked.Stage fuel sources maxMemoryBytes script start →
      start.NeverBlocks linked.providers.size) ∧
    (∀ start n, s.Starts start n → start.NeverBlocks n) ∧
    ∀ op, s.step op ≠ .error .blocked := by
  have hw := (start_wired fs fuel).run (start_kept fs fuel) h
  refine ⟨fun _ _ _ _ _ _ hl hs => hs.neverBlocks hl, fun _ _ hs => hs.neverBlocks hw, fun op hs => ?_⟩
  cases hw.step_stall hs

/-! ## A diamond, and a script that calls its import -/

/-- The making of the provider with a number, where those before it can be made. -/
def stageAt? (sources : Sources) (script : Component) (number : Nat) : Option Next :=
  let providers := (Plan.ofScript sources script).1.providers
  match providers[number]?, Linked.instantiateAll 1000 none #[] (providers.take number) with
  | some p, .ok (.ok stores) => some (Machine.making stores (p.store none))
  | _, _ => none

theorem stage_of_stageAt? {sources : Sources} {script : Component} {number : Nat} {start : Next}
    (h : stageAt? sources script number = some start) : Linked.Stage 1000 sources none script start := by
  unfold stageAt? at h
  dsimp only at h
  split at h
  · next p stores hp hi =>
    cases h
    obtain ⟨hlt, rfl⟩ := List.getElem?_eq_some_iff.mp hp
    refine ⟨_, _, (Plan.ofScript sources script).1.providers.drop (number + 1), stores, ?_, hi, rfl⟩
    rw [← List.drop_eq_getElem_cons hlt, List.take_append_drop]
  · cases h

/-- The start of a call of an instance, with an empty text as its argument. -/
def callOf? (s : Session) (of : String) (token : Option Token) (signals : Signals) : Option Next :=
  match s.handle? of with
  | some (.running b entry store) => (s.linked? b).map fun linked =>
    Machine.calling linked.providers store signals entry.interface entry.function [.string ""] 1 token
  | _ => none

theorem callOf?_cases {of : String} {token : Option Token} {signals : Signals} {start : Next}
    (h : s.callOf? of token signals = some start) :
    ∃ b entry store boundary linked, s.handle? of = some (.running b entry store) ∧
      s.boundaries[b]? = some boundary ∧ boundary.content = .active linked ∧
      start = Machine.calling linked.providers store signals entry.interface entry.function [.string ""] 1 token := by
  unfold callOf? at h
  split at h
  · next b entry store hof =>
    obtain ⟨linked, hl, rfl⟩ := Option.map_eq_some_iff.mp h
    obtain ⟨boundary, hb, hc⟩ := of_linked? hl
    exact ⟨b, entry, store, boundary, linked, hof, hb, hc, rfl⟩
  · cases h

/-- While a side of a diamond is made, it calls what is under it; and while a script is called that has been loaded,
it calls what it imports. -/
theorem diamond_holds_apart :
    let sources := Linked.counters [("b", ["d"]), ("c", ["d"]), ("d", [])]
    let script := Linked.counter "a" ["b", "c"]
    (∃ linked start m, Linked.link 1000 sources none script = .ok (.ok linked) ∧
      Linked.Stage 1000 sources none script start ∧ start.NeverBlocks 3 ∧ start.Passes m ∧ m.chain = [0, 2]) ∧
    ∃ s start n m, (Session.start (pairFiles providerText) 1000).run (loadPair ++ makePair) = .ok s ∧
      s.Starts start n ∧ start.NeverBlocks n ∧ start.Passes m ∧ m.chain = [0, 1] ∧
      ∀ op, s.step op ≠ .error .blocked := by
  intro sources script
  have hdiamond : ∃ outcome ∈ (Linked.link 1000 sources none script).toOption, ∃ linked ∈ outcome.toOption,
      linked.providers.size = 3 ∧ ∃ start ∈ stageAt? sources script 2, ∃ m ∈ start.moreAfter? 10, m.chain = [0, 2] := by
    decide +kernel
  have hpair : ∃ s, (Session.start (pairFiles providerText) 1000).run (loadPair ++ makePair) = .ok s ∧
      ∃ start ∈ s.callOf? "i" none .quiet, ∃ m ∈ start.moreAfter? 20, m.chain = [0, 1] :=
    exists_pair plain_provider <| by
      rw [callerText, providerText, String.toList_ofList, String.toList_ofList]
      decide +kernel
  obtain ⟨outcome, ho, linked, hl, hsize, stage, hstage, m, hm, hchain⟩ := hdiamond
  obtain ⟨s, hrun, start, hstart, m', hm', hchain'⟩ := hpair
  have hl := Linked.link_of_toOption ho hl
  have hstage := stage_of_stageAt? hstage
  obtain ⟨b, entry, store, boundary, linked', hof, hb, hc, rfl⟩ := callOf?_cases hstart
  have hstarts := Starts.calling hof hb hc "" none .quiet
  obtain ⟨hstages, hruns, hsteps⟩ := nested_calls_hold_apart hrun
  exact ⟨⟨linked, stage, m, hl, hstage, hsize ▸ hstages _ _ _ _ _ _ hl hstage, Next.passes_of_moreAfter? hm, hchain⟩,
    s, _, _, m', hrun, hstarts, hruns _ _ hstarts, Next.passes_of_moreAfter? hm', hchain', hsteps⟩

end Session

end ComponentHost
