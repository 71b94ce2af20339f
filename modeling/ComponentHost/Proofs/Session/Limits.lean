import ComponentHost.Proofs.Machine.Upkeep
import ComponentHost.Proofs.Session.Nesting

/-! # Limits for memories

The limit of a boundary holds for every memory in its stores by itself, at every point of every run. It does
not hold for all memories of a store together: a component that makes two memories has twice the room. -/
set_option autoImplicit false

namespace ComponentHost

namespace Store

/-- A store with this limit for memories, whose memories are within it one by one. -/
structure Limited (limit : Option Nat) (store : Store) : Prop where
  maxMemoryBytes : store.maxMemoryBytes = limit
  bounded : store.Bounded

variable {limit : Option Nat} {store : Store}

theorem limited_persistent (limit : Option Nat) : Machine.Persistent (Limited limit) :=
  fun _ _ h hb => ⟨h.maxMemoryBytes.trans hb.maxMemoryBytes, h.bounded hb.bounded⟩

theorem fresh_limited (component : Component) (limit : Option Nat) (links : List (String × Nat)) :
    (fresh component limit links).Limited limit :=
  ⟨rfl, fun _ hm => absurd hm (Array.not_mem_empty _)⟩

/-- The memories of a store have no more bytes than there are memories times the limit. -/
theorem Limited.memoryBytes_le {most : Nat} (h : store.Limited (some most)) :
    store.memoryBytes ≤ store.memories.size * most := by
  have hall : ∀ memory ∈ store.memories.toList, memory.size ≤ most := fun memory hm =>
    h.bounded memory (Array.mem_toList_iff.mp hm) most h.maxMemoryBytes
  -- the induction is on what a fold has yet to add, so it is for every sum so far
  have hfold : ∀ (memories : List Core.Memory) (n : Nat), (∀ memory ∈ memories, memory.size ≤ most) →
      memories.foldl (fun n m => n + m.size) n ≤ n + memories.length * most := by
    intro memories
    induction memories with
    | nil => simp
    | cons memory memories ih =>
      intro n hm
      obtain ⟨hfirst, hrest⟩ := List.forall_mem_cons.mp hm
      have hle := ih (n + memory.size) hrest
      rw [List.foldl_cons, List.length_cons, Nat.succ_mul]
      omega
  have hle := hfold store.memories.toList 0 hall
  rwa [Array.foldl_toList, Array.length_toList, Nat.zero_add] at hle

/-- A store that keeps a limit: each of its memories is within it, and together they have no more bytes than there
are memories times the limit. -/
structure Keeps (limit : Option Nat) (store : Store) : Prop where
  limited : store.Limited limit
  total : ∀ most, limit = some most → store.memoryBytes ≤ store.memories.size * most

theorem Limited.keeps (h : store.Limited limit) : store.Keeps limit where
  limited := h
  total := by
    rintro most rfl
    exact h.memoryBytes_le

end Store

namespace Machine

variable {limit : Option Nat} {providers : Array Store} {store : Store}

theorem making_limited (hp : ∀ p ∈ providers, p.Limited limit) (hs : store.Limited limit) {m : Machine}
    (hm : (making providers store).Passes m) : ∀ s ∈ m.stores, s.Limited limit := by
  have hstart : ∀ s : Store, s.Persists
      (Progress.go s ⟨.build s.component.steps, [], 0⟩).store := fun s => .refl s
  exact begin_passes_forall (Store.limited_persistent limit) hp hs hstart hm

theorem calling_limited (hp : ∀ p ∈ providers, p.Limited limit) (hs : store.Limited limit)
    {signals : Signals} {interface function : String} {args : List Value} {results : Nat}
    {token : Option Token} {m : Machine}
    (hm : (calling providers store signals interface function args results token).Passes m) :
    ∀ s ∈ m.stores, s.Limited limit :=
  begin_passes_forall (Store.limited_persistent limit) hp hs
    (fun _ => Store.receive_persists _ _ _ _ _ _) hm

theorem instantiate_limited {fuel : Nat} {visit : Visit} (hp : ∀ p ∈ providers, p.Limited limit)
    (hs : store.Limited limit) (h : instantiate fuel providers store = .ok visit) :
    visit.store.Limited limit ∧ ∀ p ∈ visit.providers, p.Limited limit := by
  have hstart : ∀ s : Store, s.Persists
      (Progress.go s ⟨.build s.component.steps, [], 0⟩).store := fun s => .refl s
  exact begin_visit_forall (Store.limited_persistent limit) hp hs hstart h

theorem invoke_limited {fuel : Nat} {signals : Signals} {interface function : String} {args : List Value}
    {results : Nat} {token : Option Token} {visit : Visit} (hp : ∀ p ∈ providers, p.Limited limit)
    (hs : store.Limited limit)
    (h : invoke fuel providers store signals interface function args results token = .ok visit) :
    visit.store.Limited limit ∧ ∀ p ∈ visit.providers, p.Limited limit :=
  begin_visit_forall (Store.limited_persistent limit) hp hs
    (fun _ => Store.receive_persists _ _ _ _ _ _) h

end Machine

namespace Linked

variable {fuel : Nat} {sources : Sources} {limit : Option Nat} {script : Component}

theorem instantiateAll_limited {stores : Array Store} {providers : List Provider}
    (h : instantiateAll fuel limit #[] providers = .ok (.ok stores)) : ∀ s ∈ stores, s.Limited limit :=
  instantiateAll_forall (fun hs hv => Machine.instantiate_limited hs (Store.fresh_limited _ _ _) hv)
    (fun _ hm => absurd hm (Array.not_mem_empty _)) h

theorem Stage.limited {start : Next} {m : Machine} (hs : Stage fuel sources limit script start)
    (hm : start.Passes m) : ∀ s ∈ m.stores, s.Limited limit := by
  obtain ⟨before, p, after, stores, -, hi, rfl⟩ := hs
  exact Machine.making_limited (instantiateAll_limited hi) (Store.fresh_limited _ _ _) hm

end Linked

/-! ## Sessions -/

/-- That stores are within the limit of their boundary, as a law for sessions. -/
def Law.limits : Law where
  boundary := fun b => ∀ linked, b.content = .active linked → ∀ p ∈ linked.providers, p.Limited b.maxMemoryBytes
  entry := fun _ _ => True
  running := fun b _ store => store.Limited b.maxMemoryBytes

theorem Law.limits_keeps {b : Boundary} {providers : Array Store}
    (h : ∀ p ∈ providers, p.Limited b.maxMemoryBytes) : Law.limits.Keeps b (b.withProviders providers) := by
  unfold Boundary.withProviders
  split
  · refine ⟨fun _ linked hc => ?_, fun _ hentry => hentry, fun _ _ hs => hs⟩
    cases hc
    exact h
  · exact .refl _ b

theorem Law.limits_stable : Law.limits.Stable where
  fades := fun {b b'} h => {
    boundary := fun hb linked hc => by
      rw [h.maxMemoryBytes]
      exact hb linked (h.active hc)
    entry := fun _ hentry => hentry
    running := fun _ store hs => by
      have hlimited : store.Limited b.maxMemoryBytes := hs
      rw [← h.maxMemoryBytes] at hlimited
      exact hlimited }
  load := fun h linked hc => by
    obtain ⟨manifest, script, -, hl⟩ := Boundary.load_linked h hc
    obtain ⟨plan, -, hi, -⟩ := Linked.link_ok hl
    exact Linked.instantiateAll_limited hi
  resolve := fun _ _ => trivial
  instantiate := by
    intro b b' fuel entry r hb _ h
    cases Boundary.instantiate_cases h with
    | unloaded => exact ⟨.refl _ b, fun _ => nofun⟩
    | trapped hc hv =>
      obtain ⟨-, hproviders⟩ := Machine.instantiate_limited (hb _ hc) (Store.fresh_limited _ _ _) hv
      exact ⟨limits_keeps hproviders, fun _ => nofun⟩
    | made hc hv =>
      obtain ⟨hstore, hproviders⟩ := Machine.instantiate_limited (hb _ hc) (Store.fresh_limited _ _ _) hv
      have hkeeps := limits_keeps hproviders
      refine ⟨hkeeps, fun store hs => ?_⟩
      cases hs
      exact hkeeps.running entry _ hstore
  execute := by
    intro b fuel store entry argument token signals e hb hs h
    cases Boundary.execute_cases h with
    | unloaded | cancelled | missing => exact ⟨.refl _ b, hs⟩
    | run hc hv =>
      obtain ⟨hstore, hproviders⟩ := Machine.invoke_limited (hb _ hc) hs hv
      have hkeeps := limits_keeps hproviders
      exact ⟨hkeeps, hkeeps.running entry _ hstore⟩

theorem Boundary.load_limit {fs : FileSystem} {fuel : Nat} {settings : Settings} {id scriptId : Id}
    {request : LoadRequest} {outcome : LoadOutcome}
    (h : load fs fuel settings id scriptId request = .ok (.ok outcome)) :
    outcome.boundary.maxMemoryBytes = settings.maxMemoryBytes.map UInt64.toNat := by
  unfold load at h
  split at h
  · cases h
  · dsimp only at h
    split at h
    · cases h
    · split at h
      · cases h
      · cases h
        rfl

namespace Session

variable {s : Session}

/-- A boundary has the limit of the settings that it was loaded with. -/
theorem load_limit {t : Session} {name : String} {settings : LoadSettings} {request : LoadRequest}
    {outcome : LoadOutcome} (h : s.load name settings request = .ok (t, .loaded outcome)) :
    ∃ parsed, settingsOf settings = .ok parsed ∧
      outcome.boundary.maxMemoryBytes = parsed.maxMemoryBytes.map UInt64.toNat := by
  unfold load at h
  split at h
  · cases h
  · next parsed hp =>
    split at h
    · cases h
    · cases h
    · next hl =>
      cases h
      exact ⟨parsed, hp, Boundary.load_limit hl⟩

/-- After every run, and while anything runs, each memory of a store is within the limit of the boundary by
itself, whatever the component makes of its memories, so that all together are within as many times the limit as there
are memories; and the limit is the one of the settings that the boundary was loaded with. -/
theorem memories_within_limit {fs : FileSystem} {fuel : Nat} {ops : List SessionStep}
    (h : (start fs fuel).run ops = .ok s) :
    (∀ (b : Nat) (boundary : Boundary), s.boundaries[b]? = some boundary →
      (∀ linked, boundary.content = .active linked →
        ∀ p ∈ linked.providers, p.Keeps boundary.maxMemoryBytes) ∧
      ∀ name entry store, (name, .running b entry store) ∈ s.handles →
        store.Keeps boundary.maxMemoryBytes) ∧
    (∀ start n m, s.Starts start n → start.Passes m →
      ∃ (b : Nat) (boundary : Boundary), s.boundaries[b]? = some boundary ∧
        ∀ store ∈ m.stores, store.Keeps boundary.maxMemoryBytes) ∧
    (∀ fuel sources limit script start m, Linked.Stage fuel sources limit script start →
      start.Passes m → ∀ store ∈ m.stores, store.Keeps limit) ∧
    ∀ name settings request t outcome, s.step (.load name settings request) = .ok (t, .loaded outcome) →
      ∃ parsed, settingsOf settings = .ok parsed ∧
        outcome.boundary.maxMemoryBytes = parsed.maxMemoryBytes.map UInt64.toNat := by
  have hs := upholds_of_run Law.limits_stable h
  refine ⟨fun b boundary hb => ⟨fun linked hc p hp => (hs.boundaries b boundary hb linked hc p hp).keeps, ?_⟩, ?_,
    fun _ _ _ _ _ _ hstage hm store hstore => (hstage.limited hm store hstore).keeps,
    fun name settings request t outcome hl => load_limit hl⟩
  · exact fun name entry store hm => (hs.handles _ hm b boundary rfl hb).keeps
  · rintro start n m hstarts hm
    cases hstarts with
    | making hof hb hc =>
      exact ⟨_, _, hb, fun store hstore =>
        (Machine.making_limited (hs.boundaries _ _ hb _ hc) (Store.fresh_limited _ _ _) hm store hstore).keeps⟩
    | calling hof hb hc =>
      have hrunning := hs.handles _ (mem_of_handle? hof) _ _ rfl hb
      exact ⟨_, _, hb, fun store hstore =>
        (Machine.calling_limited (hs.boundaries _ _ hb _ hc) hrunning hm store hstore).keeps⟩

/-! ## A memory that grows -/

/-- A component with two memories, the first of which grows by a page whenever its function is called. -/
def growingText : String := r#"(component
  (core module (memory (export "m") 1)
    (func (export "r") (param i32 i32 i32 i32) (result i32) (i32.const 0))
    (func (export "x") (param i32 i32) (result i32) (drop (memory.grow (i32.const 1))) (i32.const 32)))
  (core module (memory 2))
  (core instance (instantiate 0))
  (core instance (instantiate 1))
  (func (param "n" string) (result string)
    (canon lift (core func 0 "x") (memory (core memory 0 "m")) (realloc (core func 0 "r"))))
  (instance (export "execute" (func 0)))
  (export "e" (instance 0)))"#

/-- Loads the component with a limit of two pages, and makes an instance of it. -/
def makeGrowing : List SessionStep :=
  [.load "c" (.text "max-memory-bytes = 131072") ⟨⟨"/base"⟩, growingText, []⟩,
    .resolve "c.module" "e" .standard, .instantiate "e" "i"]

/-- Calls the instance two times. -/
def callGrowing : List SessionStep := [.execute "i" "" none none, .execute "i" "" none none]

/-- The limit that an instance has, and the sizes of its memories. -/
def sizes? (s : Session) (of : String) : Option (Option Nat × List Nat) :=
  match s.handle? of with
  | some (.running b _ store) =>
    (s.boundaries[b]?).map fun boundary => (boundary.maxMemoryBytes, store.memories.toList.map Core.Memory.size)
  | _ => none

theorem of_sizes? {of : String} {limit : Option Nat} {sizes : List Nat} (h : s.sizes? of = some (limit, sizes)) :
    ∃ b boundary entry store, s.handle? of = some (.running b entry store) ∧ s.boundaries[b]? = some boundary ∧
      boundary.maxMemoryBytes = limit ∧ store.memories.toList.map Core.Memory.size = sizes := by
  unfold sizes? at h
  split at h
  · next b entry store hof =>
    obtain ⟨boundary, hb, he⟩ := Option.map_eq_some_iff.mp h
    obtain ⟨rfl, rfl⟩ := Prod.mk.inj he
    exact ⟨b, boundary, entry, store, hof, hb, rfl, rfl⟩
  · cases h

theorem trim_growing :
    growingText.toList ≠ [] ∧ Text.trimEnd (Text.trimStart growingText.toList) = growingText.toList := by
  rw [growingText, String.toList_ofList]
  decide +kernel

theorem exists_grown :
    ∃ s, (start bareFiles 1000).run makeGrowing = .ok s ∧ s.sizes? "i" = some (some 131072, [65536, 131072]) ∧
      s.boundaries.all (fun boundary => boundary.maxMemoryBytes == some 131072) = true ∧
      (∃ start ∈ s.callOf? "i" none .quiet, ∃ m ∈ start.moreAfter? 12,
        m.stores.toList.map (fun store => store.memories.toList.map Core.Memory.size) = [[131072, 131072]]) ∧
      ∃ u ∈ (s.run callGrowing).toOption, u.sizes? "i" = some (some 131072, [131072, 131072]) :=
  exists_alone trim_growing <| by
    rw [growingText, String.toList_ofList]
    decide +kernel

/-- A memory is made and grows as far as the limit allows, and no further. -/
theorem limited_as_configured :
    ∃ s u first n m b entry store b' entry' store', (start bareFiles 1000).run makeGrowing = .ok s ∧
      s.handle? "i" = some (.running b entry store) ∧
      store.memories.toList.map Core.Memory.size = [65536, 131072] ∧ store.Keeps (some 131072) ∧
      s.Starts first n ∧ first.Passes m ∧ (∀ left ∈ m.stores, left.Keeps (some 131072)) ∧
      m.stores.toList.map (fun left => left.memories.toList.map Core.Memory.size) = [[131072, 131072]] ∧
      (start bareFiles 1000).run (makeGrowing ++ callGrowing) = .ok u ∧
      u.handle? "i" = some (.running b' entry' store') ∧
      store'.memories.toList.map Core.Memory.size = [131072, 131072] ∧ store'.Keeps (some 131072) := by
  obtain ⟨s, hrun, hsizes, hlimits, ⟨first, hfirst, m, hm, hgrowing⟩, u, hu, hsizes'⟩ := exists_grown
  obtain ⟨b, boundary, entry, store, hof, hb, hlimit, hmade⟩ := of_sizes? hsizes
  obtain ⟨b', boundary', entry', store', hof', hb', hlimit', hgrown⟩ := of_sizes? hsizes'
  obtain ⟨_, _, _, _, _, hcalled, hboundary, hactive, rfl⟩ := callOf?_cases hfirst
  have hstarts := Starts.calling hcalled hboundary hactive "" none .quiet
  have hrun' : (start bareFiles 1000).run (makeGrowing ++ callGrowing) = .ok u :=
    (run_append hrun callGrowing).trans (ok_of_toOption hu)
  obtain ⟨hstores, hruns, -⟩ := memories_within_limit hrun
  obtain ⟨hstores', -⟩ := memories_within_limit hrun'
  have hkeeps := (hstores b boundary hb).2 "i" entry store (mem_of_handle? hof)
  have hkeeps' := (hstores' b' boundary' hb').2 "i" entry' store' (mem_of_handle? hof')
  have hpasses := Next.passes_of_moreAfter? hm
  refine ⟨s, u, _, _, m, b, entry, store, b', entry', store', hrun, hof, hmade, hlimit ▸ hkeeps, hstarts, hpasses, ?_,
    hgrowing, hrun', hof', hgrown, hlimit' ▸ hkeeps'⟩
  obtain ⟨n, other, hn, hall⟩ := hruns _ _ m hstarts hpasses
  have hother : other.maxMemoryBytes = some 131072 := by
    have hmem := List.all_eq_true.mp hlimits other (List.mem_of_getElem? hn)
    exact eq_of_beq hmem
  exact hother ▸ hall

end Session

/-! ## Two memories -/

/-- A component that makes two memories of one page each. -/
def twoPages : Component where
  imports := []
  steps := List.replicate 2 (.instantiate ⟨[], [], [], [⟨1, none⟩], [], [], [], none, []⟩ [])
  exports := []

def twoPagesDefinitions : List (Wat.Definition Nat) :=
  [.coreModule none [] [.memory none [] ⟨1, none⟩], .coreInstantiate none 0 [], .coreInstantiate none 0 []]

/-- A store goes beyond the limit of its boundary with two memories that do not. -/
theorem two_memories_exceed_limit :
    Component.check twoPagesDefinitions = .ok twoPages ∧
    ∃ visit, Linked.instantiate 10 ⟨twoPages, #[], []⟩ (some Core.pageSize) = .ok visit ∧
      visit.result.isOk = true ∧ Core.pageSize < visit.store.memoryBytes := by
  refine ⟨rfl, ?_⟩
  have hall : (Linked.instantiate 10 ⟨twoPages, #[], []⟩ (some Core.pageSize)).toOption.any
      (fun visit => visit.result.isOk && decide (Core.pageSize < visit.store.memoryBytes)) = true := by
    decide +kernel
  cases hv : Linked.instantiate 10 ⟨twoPages, #[], []⟩ (some Core.pageSize) with
  | error stall =>
    rw [hv] at hall
    cases hall
  | ok visit =>
    rw [hv] at hall
    obtain ⟨hok, hbytes⟩ := (Bool.and_eq_true _ _).mp hall
    exact ⟨visit, rfl, hok, of_decide_eq_true hbytes⟩

end ComponentHost
