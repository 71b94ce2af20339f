import ComponentHost.Proofs.Machine.Doors
import ComponentHost.Proofs.Session.Firing
import ComponentHost.Proofs.Session.Nesting

/-! # Failures beside each other

The instances of a script share the providers of their boundary. Whatever fails while it is in a provider
leaves it shut for good, to all instances; and nothing else shuts one. So a call of a provider is turned away
just when some run before it has failed in that provider. -/
set_option autoImplicit false

namespace ComponentHost

open Machine (areOpen)

/-! ## New providers -/

namespace Linked

variable {fuel : Nat} {maxMemoryBytes : Option Nat} {stores stores' : Array Store} {providers : List Provider}
  {sources : Sources} {script : Component} {linked : Linked}

/-- When all instances of a plan are made, all of them may be entered. -/
theorem instantiateAll_open (before : List Provider) (hlinks : Plan.LinksDown (before ++ providers))
    (hbefore : instantiateAll fuel maxMemoryBytes #[] before = .ok (.ok stores))
    (hopen : ∀ site < stores.size, areOpen stores site = true)
    (h : instantiateAll fuel maxMemoryBytes stores providers = .ok (.ok stores')) :
    ∀ site < stores'.size, areOpen stores' site = true := by
  induction providers generalizing before stores with
  | nil =>
    cases h
    exact hopen
  | cons p rest ih =>
    have hinorder := inOrder_of_instantiateAll hlinks.left hbefore
    have hp : ∀ l ∈ (p.store maxMemoryBytes).links, l.2 < stores.size := by
      rw [size_of_instantiateAll hbefore]
      exact hlinks before.length p (by simp)
    rw [instantiateAll] at h
    split at h
    · cases h
    · next visit hv =>
      split at h
      · cases h
      · next values hr =>
        have hmade := Machine.instantiate_open hinorder hp rfl hv hr
        have hsize : visit.providers.size = stores.size := by
          simpa using congrArg Array.size (Machine.instantiate_leaves hv).providers
        refine ih (before ++ [p]) (by simpa using hlinks) ?_ (fun site hs => ?_) h
        · rw [instantiateAll_append hbefore, instantiateAll, hv]
          dsimp only
          rw [hr]
          rfl
        · rw [Machine.areOpen_push]
          split
          · exact hmade
          · next hne =>
            have hlt : site < stores.size := by
              rw [Array.size_push] at hs
              omega
            rw [← Bool.not_eq_false]
            intro hshut
            rcases (Machine.run_shuts hinorder hp (fun _ => rfl) hv hlt).mp hshut with hbefore | hfails
            · exact Bool.noConfusion (hbefore.symm.trans (hopen site hlt))
            · exact Machine.not_failsIn_of_ok hv hr hfails

/-- All providers of a script that has been linked may be entered. -/
theorem open_of_link (h : link fuel sources maxMemoryBytes script = .ok (.ok linked)) :
    ∀ site < linked.providers.size, areOpen linked.providers site = true := by
  obtain ⟨plan, hp, hi, -⟩ := link_ok h
  have hlinks := (Plan.ofScript_numbered sources script).1.links
  rw [hp] at hlinks
  exact instantiateAll_open [] hlinks rfl nofun hi

end Linked

namespace Boundary

/-! ## Boundaries -/

/-- The run in which a boundary makes an instance. -/
inductive Makes (b : Boundary) : Next → Prop where
  | intro {linked : Linked} (hc : b.content = .active linked) :
      Makes b (Machine.making linked.providers (.fresh linked.script b.maxMemoryBytes linked.links))

/-- The run in which an entry point is called in the store of an instance. -/
inductive Calls (b : Boundary) (store : Store) (entry : EntryPoint) (argument : String) (token : Option Token)
    (signals : Signals) : Next → Prop where
  | intro {linked : Linked} (hc : b.content = .active linked) (hf : token.any signals.hasFired = false)
      (hm : missing? store entry = none) :
      Calls b store entry argument token signals
        (Machine.calling linked.providers store signals entry.interface entry.function [.string argument] 1 token)

/-- A boundary goes over to one whose providers are as many, and shut as before but for those that a run fails
in, or is not active any more. -/
def Shuts (b b' : Boundary) (runs : Next → Prop) : Prop :=
  ∀ linked', b'.content = .active linked' → ∃ linked, b.content = .active linked ∧
    linked'.providers.size = linked.providers.size ∧ ∀ site < linked.providers.size,
      areOpen linked'.providers site = false ↔
        areOpen linked.providers site = false ∨ ∃ start, runs start ∧ start.FailsIn site

variable {b b' b'' : Boundary} {runs : Next → Prop} {fuel : Nat}

theorem Fades.shuts (h : b.Fades b') (hn : ∀ start, ¬ runs start) : b.Shuts b' runs := by
  intro linked' hc'
  refine ⟨linked', h.active hc', rfl, fun site _ => ?_⟩
  rw [or_iff_left]
  rintro ⟨start, hr, -⟩
  exact hn start hr

theorem Shuts.fade (h : b.Shuts b' runs) (hf : b'.Fades b'') : b.Shuts b'' runs :=
  fun linked hc => h linked (hf.active hc)

theorem Shuts.of_iff {runs' : Next → Prop} (h : b.Shuts b' runs) (hr : ∀ start, runs' start ↔ runs start) :
    b.Shuts b' runs' := by
  intro linked' hc'
  obtain ⟨linked, hc, hsize, hp⟩ := h linked' hc'
  refine ⟨linked, hc, hsize, fun site hs => ?_⟩
  rw [hp site hs]
  simp only [hr]

theorem shuts_of_not_active (hn : b.lifecycle ≠ .active) : b.Shuts b runs :=
  fun linked hc => absurd hc (lifecycle_ne_active_iff.mp hn linked)

theorem shuts_of_run {linked : Linked} {start : Next} {providers : Array Store}
    (hc : b.content = .active linked) (hr : ∀ other, runs other ↔ other = start)
    (hsize : providers.size = linked.providers.size)
    (hp : ∀ site < linked.providers.size, areOpen providers site = false ↔
      areOpen linked.providers site = false ∨ start.FailsIn site) :
    b.Shuts (b.withProviders providers) runs := by
  intro linked' hc'
  unfold withProviders at hc'
  rw [hc] at hc'
  cases hc'
  refine ⟨linked, hc, hsize, fun site hs => ?_⟩
  rw [hp site hs]
  simp [hr]

theorem makes_iff {linked : Linked} (hc : b.content = .active linked) (start : Next) :
    b.Makes start ↔
      start = Machine.making linked.providers (.fresh linked.script b.maxMemoryBytes linked.links) := by
  constructor
  · rintro ⟨hc'⟩
    cases hc.symm.trans hc'
    rfl
  · rintro rfl
    exact ⟨hc⟩

theorem calls_iff {linked : Linked} {store : Store} {entry : EntryPoint} {token : Option Token}
    {signals : Signals} (hc : b.content = .active linked) (hf : token.any signals.hasFired = false)
    (hm : missing? store entry = none) (argument : String) (start : Next) :
    b.Calls store entry argument token signals start ↔
      start = Machine.calling linked.providers store signals entry.interface entry.function
        [.string argument] 1 token := by
  constructor
  · rintro ⟨hc', -, -⟩
    cases hc.symm.trans hc'
    rfl
  · rintro rfl
    exact ⟨hc, hf, hm⟩

theorem instantiate_shuts {r : Except EntryPointError Store} (hb : b.InOrder)
    (h : b.instantiate fuel = .ok (b', r)) : b.Shuts b' b.Makes := by
  have hrun : ∀ {linked : Linked} {visit : Visit}, b.content = .active linked →
      linked.instantiate fuel b.maxMemoryBytes = .ok visit →
      b.Shuts (b.withProviders visit.providers) b.Makes := by
    intro linked visit hc hv
    have hsize : visit.providers.size = linked.providers.size := by
      simpa using congrArg Array.size (Machine.instantiate_leaves hv).providers
    exact shuts_of_run hc (makes_iff hc) hsize fun site hs =>
      Machine.run_shuts (hb linked hc).providers (hb linked hc).links (fun _ => rfl) hv hs
  cases instantiate_cases h with
  | unloaded hn => exact shuts_of_not_active hn
  | trapped hc hv => exact hrun hc hv
  | made hc hv => exact hrun hc hv

theorem execute_shuts {store : Store} {entry : EntryPoint} {argument : String} {token : Option Token}
    {signals : Signals} {e : Execution} (hb : b.InOrder) (hs : b.Serves store)
    (h : b.execute fuel store entry argument token signals = .ok e) :
    b.Shuts e.boundary (b.Calls store entry argument token signals) := by
  have hidle : (∀ start, ¬ b.Calls store entry argument token signals start) →
      b.Shuts b (b.Calls store entry argument token signals) := (Fades.refl b).shuts
  cases execute_cases h with
  | unloaded hn => exact shuts_of_not_active hn
  | cancelled hf =>
    refine hidle fun start hr => ?_
    obtain ⟨-, hn, -⟩ := hr
    exact Bool.noConfusion (hf.symm.trans hn)
  | missing hm =>
    refine hidle fun start hr => ?_
    obtain ⟨-, -, hn⟩ := hr
    cases hm.symm.trans hn
  | @run linked visit hc hv hf hm =>
    have hsize : visit.providers.size = linked.providers.size := by
      simpa using congrArg Array.size (Machine.invoke_leaves hv).providers
    exact shuts_of_run hc (calls_iff hc hf hm argument) hsize fun site hn =>
      Machine.run_shuts (hb linked hc).providers (hs linked hc)
        (fun _ => Machine.receive_wiring _ _ _ _ _ _) hv hn

theorem load_open {fs : FileSystem} {settings : Settings} {id scriptId : Id} {request : LoadRequest}
    {outcome : LoadOutcome} (h : load fs fuel settings id scriptId request = .ok (.ok outcome)) {linked : Linked}
    (hc : outcome.boundary.content = .active linked) :
    ∀ site < linked.providers.size, areOpen linked.providers site = true := by
  obtain ⟨manifest, script, -, hl⟩ := load_linked h hc
  exact Linked.open_of_link hl

end Boundary

namespace Session

/-! ## Sessions -/

/-- The run that a step starts in a boundary: making an instance, or calling one. -/
inductive Runs (s : Session) (b : Nat) : SessionStep → Next → Prop where
  | making {of name : String} {entry : EntryPoint} {boundary : Boundary} {start : Next}
      (hof : s.handle? of = some (.entry b entry)) (hb : s.boundaries[b]? = some boundary)
      (hm : boundary.Makes start) : Runs s b (.instantiate of name) start
  | calling {of argument : String} {token : Option String} {cancelAfter : Option Nat} {entry : EntryPoint}
      {store : Store} {boundary : Boundary} {start : Next}
      (hof : s.handle? of = some (.running b entry store)) (hb : s.boundaries[b]? = some boundary)
      (hc : boundary.Calls store entry argument (token.bind s.token?)
        ⟨s.fired, alarm (token.bind s.token?) cancelAfter⟩ start) :
      Runs s b (.execute of argument token cancelAfter) start

/-- A step of a session starts a run that fails in a provider of a boundary. -/
def FailsNow (s : Session) (op : SessionStep) (b site : Nat) : Prop :=
  ∃ start, s.Runs b op start ∧ start.FailsIn site

/-- Some step of a run of a session starts a run that fails in a provider of a boundary. -/
def FailsIn (s : Session) (ops : List SessionStep) (b site : Nat) : Prop :=
  ∃ before op after t, ops = before ++ op :: after ∧ s.run before = .ok t ∧ t.FailsNow op b site

variable {s t u : Session} {op : SessionStep} {ops : List SessionStep} {a : SessionAnswer} {b site : Nat}

theorem failsIn_nil : ¬ s.FailsIn [] b site := by
  rintro ⟨before, op, after, t, he, -⟩
  exact absurd he.symm (List.append_ne_nil_of_right_ne_nil before (List.cons_ne_nil _ _))

theorem failsIn_cons (h : s.step op = .ok (t, a)) :
    s.FailsIn (op :: ops) b site ↔ s.FailsNow op b site ∨ t.FailsIn ops b site := by
  constructor
  · rintro ⟨before, op', after, u, he, hr, hf⟩
    cases before with
    | nil =>
      cases hr
      cases he
      exact .inl hf
    | cons first before =>
      obtain ⟨rfl, hrest⟩ := List.cons.inj he
      exact .inr ⟨before, op', after, u, hrest, (run_cons h).mp hr, hf⟩
  · rintro (hf | ⟨before, op', after, u, rfl, hr, hf⟩)
    · exact ⟨[], op, ops, s, rfl, rfl, hf⟩
    · exact ⟨op :: before, op', after, u, rfl, (run_cons h).mpr hr, hf⟩

/-- What a step does to the boundaries that are there, and how it makes new ones. -/
structure Shuts (s t : Session) (op : SessionStep) : Prop where
  old : ∀ (n : Nat) (boundary boundary' : Boundary), s.boundaries[n]? = some boundary →
    t.boundaries[n]? = some boundary' → boundary.Shuts boundary' (s.Runs n op)
  new : ∀ (n : Nat) (boundary' : Boundary) (linked : Linked), s.boundaries[n]? = none →
    t.boundaries[n]? = some boundary' → boundary'.content = .active linked →
    ∀ site < linked.providers.size, areOpen linked.providers site = true

/-- A step that runs nothing, and makes no boundary. -/
theorem Fades.shuts (h : s.Fades t) (hn : ∀ b start, ¬ s.Runs b op start) : s.Shuts t op where
  old := fun n boundary boundary' hb hb' => by
    obtain ⟨old, ho, hf⟩ := h n boundary' hb'
    cases hb.symm.trans ho
    exact hf.shuts (hn n)
  new := fun n boundary' linked hb hb' => by
    obtain ⟨old, ho, -⟩ := h n boundary' hb'
    cases hb.symm.trans ho

theorem Shuts.fade (h : s.Shuts t op) (hf : t.Fades u) : s.Shuts u op where
  old := fun n boundary boundary'' hb hb'' => by
    obtain ⟨boundary', hb', hfades⟩ := hf n boundary'' hb''
    exact (h.old n boundary boundary' hb hb').fade hfades
  new := fun n boundary'' linked hb hb'' hc => by
    obtain ⟨boundary', hb', hfades⟩ := hf n boundary'' hb''
    exact h.new n boundary' linked hb hb' (hfades.active hc)

/-- A step that runs something in one boundary. -/
theorem shuts_update {boundary boundary' : Boundary} (hb : s.boundaries[b]? = some boundary)
    (h : boundary.Shuts boundary' (s.Runs b op)) (hn : ∀ n start, s.Runs n op start → n = b) :
    s.Shuts (s.update b fun _ => boundary') op where
  old := fun n old new ho hnew => by
    rw [update, List.getElem?_modify, ho] at hnew
    cases hnew
    dsimp only
    by_cases hbn : b = n
    · subst hbn
      cases hb.symm.trans ho
      rw [if_pos rfl]
      exact h
    · rw [if_neg hbn]
      exact (Boundary.Fades.refl old).shuts fun start hr => hbn (hn n start hr).symm
  new := fun n new linked ho hnew => by
    rw [update, List.getElem?_modify, ho] at hnew
    cases hnew

theorem place_shuts {name : String} {boundary : Boundary} (hn : ∀ b start, ¬ s.Runs b op start)
    (hopen : ∀ linked, boundary.content = .active linked →
      ∀ site < linked.providers.size, areOpen linked.providers site = true) :
    s.Shuts (s.place name boundary) op := by
  have happend : s.Shuts (({ s with
      boundaries := s.boundaries ++ [boundary]
      nextId := s.nextId + 2 } : Session).recordLoad name (some s.boundaries.length)) op := by
    refine ⟨fun n old new ho hnew => ?_, fun n new linked ho hnew hc => ?_⟩
    · have hlt := (List.getElem?_eq_some_iff.mp ho).1
      cases ((List.getElem?_append_left hlt).trans ho).symm.trans hnew
      exact (Boundary.Fades.refl old).shuts (hn n)
    · rcases Accounted.getElem?_concat_cases hnew with ⟨hnew, -⟩ | ⟨-, rfl⟩
      · cases ho.symm.trans hnew
      · exact hopen linked hc
  have hcontext := happend.fade (.bind _ name (.context s.boundaries.length))
  unfold place
  dsimp only
  split
  · exact hcontext.fade (.bind _ _ _)
  · exact hcontext

/-! ## Steps -/

theorem load_shuts {name : String} {settings : LoadSettings} {request : LoadRequest}
    (h : s.load name settings request = .ok (t, a)) : s.Shuts t (.load name settings request) := by
  have hn : ∀ b start, ¬ s.Runs b (.load name settings request) start := fun _ _ => nofun
  unfold load at h
  split at h
  · cases h
    exact Fades.shuts (.of_eq rfl) hn
  · split at h
    · cases h
    · cases h
      exact Fades.shuts (.of_eq rfl) hn
    · next outcome hl =>
      cases h
      exact place_shuts hn fun linked hc => Boundary.load_open hl hc

theorem instantiate_shuts (hw : s.Wired) {of name : String} (h : s.instantiate of name = .ok (t, a)) :
    s.Shuts t (.instantiate of name) := by
  unfold instantiate at h
  split at h
  · next b entry hof =>
    have hone : ∀ n start, s.Runs n (.instantiate of name) start → n = b := by
      intro n start hr
      cases hr with
      | making hof' =>
        cases hof.symm.trans hof'
        rfl
    split at h
    · next hb =>
      cases h
      refine Fades.shuts (.of_eq rfl) fun n start hr => ?_
      cases hr with
      | making hof' hb' =>
        cases hof.symm.trans hof'
        cases hb.symm.trans hb'
    · next boundary hb =>
      have hmakes : ∀ start, s.Runs b (.instantiate of name) start ↔ boundary.Makes start := by
        refine fun start => ⟨fun hr => ?_, fun hm => .making hof hb hm⟩
        cases hr with
        | making hof' hb' hm =>
          cases hb.symm.trans hb'
          exact hm
      have hmade := fun {boundary' : Boundary} {r : Except EntryPointError Store}
          (hi : boundary.instantiate s.fuel = .ok (boundary', r)) =>
        shuts_update hb ((Boundary.instantiate_shuts (hw.boundaries b boundary hb) hi).of_iff hmakes) hone
      split at h
      · cases h
      · next hi =>
        cases h
        exact hmade hi
      · next hi =>
        cases h
        exact (hmade hi).fade (.add _ name _)
  · next hof =>
    cases h
    refine Fades.shuts (.of_eq rfl) fun n start hr => ?_
    cases hr with
    | making hof' => exact hof _ _ hof'

theorem execute_shuts (hw : s.Wired) {of argument : String} {token : Option String} {cancelAfter : Option Nat}
    (h : s.execute of argument token cancelAfter = .ok (t, a)) :
    s.Shuts t (.execute of argument token cancelAfter) := by
  by_cases hof : ∃ b entry store boundary, s.handle? of = some (.running b entry store) ∧
      s.boundaries[b]? = some boundary
  · obtain ⟨b, entry, store, boundary, hof, hb⟩ := hof
    have hone : ∀ n start, s.Runs n (.execute of argument token cancelAfter) start → n = b := by
      intro n start hr
      cases hr with
      | calling hof' =>
        cases hof.symm.trans hof'
        rfl
    have hcalls : ∀ start, s.Runs b (.execute of argument token cancelAfter) start ↔
        boundary.Calls store entry argument (token.bind s.token?)
          ⟨s.fired, alarm (token.bind s.token?) cancelAfter⟩ start := by
      refine fun start => ⟨fun hr => ?_, fun hc => .calling hof hb hc⟩
      cases hr with
      | calling hof' hb' hc =>
        cases hof.symm.trans hof'
        cases hb.symm.trans hb'
        exact hc
    rw [execute_running hof hb] at h
    split at h
    · cases h
    · next e he =>
      cases h
      have hserves := hw.handles _ (mem_of_handle? hof) b entry store rfl boundary hb
      have hshuts := (Boundary.execute_shuts (hw.boundaries b boundary hb) hserves he).of_iff hcalls
      exact (shuts_update hb hshuts hone).fade (.of_eq rfl)
  · have hn : ∀ b start, ¬ s.Runs b (.execute of argument token cancelAfter) start := by
      intro b start hr
      cases hr with
      | calling hof' hb' => exact hof ⟨_, _, _, _, hof', hb'⟩
    unfold execute at h
    split at h
    · next hof' =>
      split at h
      · cases h
        exact Fades.shuts (.of_eq rfl) hn
      · next hb' => exact absurd ⟨_, _, _, _, hof', hb'⟩ hof
    · cases h
      exact Fades.shuts (.of_eq rfl) hn

/-- A step shuts the providers that a run of it fails in, and leaves all others as they were. -/
theorem step_shuts (hw : s.Wired) (h : s.step op = .ok (t, a)) : s.Shuts t op := by
  cases op with
  | load name settings request => exact load_shuts h
  | instantiate of name => exact instantiate_shuts hw h
  | execute of argument token cancelAfter => exact execute_shuts hw h
  | wait of monitor released token cancelAfter => exact Fades.shuts (.wait h) (by rintro _ _ ⟨⟩)
  | token name =>
    cases h
    have hnext : s.Fades { s with nextToken := s.nextToken + 1 } := .of_eq rfl
    exact Fades.shuts (hnext.trans (.add _ name _)) (by rintro _ _ ⟨⟩)
  | unload of name =>
    refine Fades.shuts ?_ (by rintro _ _ ⟨⟩)
    simp only [step] at h
    split at h
    · next b _ =>
      have hunload : s.Fades (s.update b Boundary.requestUnload) :=
        .update s b fun boundary => boundary.requestUnload_fades
      have hleft := hunload.trans ((Fades.drop _ of).trans (.add _ name (.observer b)))
      split at h <;> (cases h; exact hleft)
    · cases h
      exact .of_eq rfl
  | resolve | cancel | observe | compiled | ids | clone | drop | describe =>
    refine Fades.shuts ?_ (by rintro _ _ ⟨⟩)
    simp only [step] at h
    (repeat' split at h) <;> cases h <;> first
      | exact .of_eq rfl
      | exact .add s _ _
      | exact .drop s _
      | exact .fireToken s _

/-! ## Runs -/

/-- The providers of the active boundaries of a session that cannot be entered are these. -/
structure Sealed (s : Session) (P : Nat → Nat → Prop) : Prop where
  shut : ∀ (b : Nat) (boundary : Boundary) (linked : Linked), s.boundaries[b]? = some boundary →
    boundary.content = .active linked → ∀ site < linked.providers.size,
      areOpen linked.providers site = false ↔ P b site
  bound : ∀ b site, P b site → b < s.boundaries.length

variable {P : Nat → Nat → Prop}

theorem FailsNow.lt (h : s.FailsNow op b site) : b < s.boundaries.length := by
  obtain ⟨start, hr, -⟩ := h
  cases hr with
  | making _ hb => exact (List.getElem?_eq_some_iff.mp hb).1
  | calling _ hb => exact (List.getElem?_eq_some_iff.mp hb).1

theorem Sealed.step (hs : s.Sealed P) (hl : s.boundaries.length ≤ t.boundaries.length) (h : s.Shuts t op) :
    t.Sealed fun b site => P b site ∨ s.FailsNow op b site := by
  have hbound : ∀ b site, P b site ∨ s.FailsNow op b site → b < s.boundaries.length :=
    fun b site hf => hf.elim (hs.bound b site) FailsNow.lt
  refine ⟨fun b boundary' linked' hb' hc' site hsite => ?_, fun b site hf =>
    Nat.lt_of_lt_of_le (hbound b site hf) hl⟩
  cases hb : s.boundaries[b]? with
  | some boundary =>
    obtain ⟨linked, hc, hsize, hp⟩ := h.old b boundary boundary' hb hb' linked' hc'
    rw [hsize] at hsite
    rw [hp site hsite, hs.shut b boundary linked hb hc site hsite]
    rfl
  | none =>
    rw [h.new b boundary' linked' hb hb' hc' site hsite]
    refine iff_of_false Bool.noConfusion fun hf => ?_
    exact absurd (hbound b site hf) (Nat.not_lt.mpr (List.getElem?_eq_none_iff.mp hb))

/-- The providers that are shut after a run are those that were before, and those that it fails in. -/
theorem Sealed.run (hs : s.Sealed P) (hw : s.Wired) (hk : s.Kept []) (h : s.run ops = .ok t) :
    t.Sealed fun b site => P b site ∨ s.FailsIn ops b site := by
  induction ops generalizing s P with
  | nil =>
    cases h
    simpa only [failsIn_nil, or_false] using hs
  | cons op ops ih =>
    obtain ⟨u, a, hstep, hr⟩ := run_cons_ok h
    have hl := hk.step_keep (P := fun u => s.boundaries.length ≤ u.boundaries.length)
      (fun hu hm => Nat.le_trans hu hm.length_le) (fun _ _ hu => by simpa using hu) (Nat.le_refl _) hstep
    have hrest := ih (hs.step hl (step_shuts hw hstep)) (hw.step hk hstep) (hk.step hstep) hr
    simpa only [failsIn_cons hstep, or_assoc] using hrest

theorem Runs.turned_away_iff (hw : s.Wired) {start : Next} (hr : s.Runs b op start) {m : Machine}
    (hm : start.Passes m) {outer : List Call} {left : Store} {waiting : Thread} {caller provider : Nat}
    {interface function : String} {args : List Value} {results : Nat}
    (ha : m.Asks caller outer left waiting interface function args results)
    (hp : (m.store caller).links.lookup interface = some provider) :
    ∃ boundary linked, s.boundaries[b]? = some boundary ∧ boundary.content = .active linked ∧
      provider < linked.providers.size ∧ ((∃ m', m.step = .failed m' .cannotEnter) ↔
        (m.store provider).Admits interface function args results ∧
          areOpen linked.providers provider = false) := by
  cases hr with
  | making hof hb hmakes =>
    obtain ⟨hc⟩ := hmakes
    obtain ⟨hproviders, hlinks⟩ := hw.boundaries _ _ hb _ hc
    exact ⟨_, _, hb, hc, ha.turned_away_iff hproviders hlinks (fun _ => rfl) hm hp⟩
  | calling hof hb hcalls =>
    obtain ⟨hc, -, -⟩ := hcalls
    have hlinks := hw.handles _ (mem_of_handle? hof) _ _ _ rfl _ hb _ hc
    exact ⟨_, _, hb, hc, ha.turned_away_iff (hw.boundaries _ _ hb _ hc).providers hlinks
      (fun _ => Machine.receive_wiring _ _ _ _ _ _) hm hp⟩

/-- A provider of a boundary is shut just when some run before has failed in it: an instance that was being
made or called was inside it, or on the way in. Whatever runs next in the boundary, through whatever instance, a
call of a provider that would be let in is turned away for that reason and for no other. -/
theorem turned_away_iff_failed {fs : FileSystem} {fuel : Nat} {ops : List SessionStep}
    (h : (start fs fuel).run ops = .ok s) :
    (∀ b boundary linked, s.boundaries[b]? = some boundary → boundary.content = .active linked →
      ∀ site < linked.providers.size,
        areOpen linked.providers site = false ↔ (start fs fuel).FailsIn ops b site) ∧
    ∀ b op first m caller outer left waiting interface function args results provider,
      s.Runs b op first → first.Passes m →
      m.Asks caller outer left waiting interface function args results →
      (m.store caller).links.lookup interface = some provider →
      ((∃ m', m.step = .failed m' .cannotEnter) ↔
        (m.store provider).Admits interface function args results ∧
          (start fs fuel).FailsIn ops b provider) := by
  have hk := start_kept fs fuel
  have hw := start_wired fs fuel
  have hstart : (start fs fuel).Sealed fun _ _ => False := ⟨nofun, nofun⟩
  have hsealed := hstart.run hw hk h
  simp only [false_or] at hsealed
  refine ⟨hsealed.shut, fun b op first m caller outer left waiting interface function args results provider
    hr hm ha hp => ?_⟩
  obtain ⟨boundary, linked, hb, hc, hlt, hiff⟩ := hr.turned_away_iff (hw.run hk h) hm ha hp
  rw [hiff, hsealed.shut b boundary linked hb hc provider hlt]

/-! ## A provider that fails -/

/-- The run of a step that calls an instance, with an empty text and without a token. -/
def runOf? (s : Session) (of : String) : Option Next :=
  match s.handle? of with
  | some (.running _ entry store) =>
    match Boundary.missing? store entry with
    | none => s.callOf? of none ⟨s.fired, none⟩
    | some _ => none
  | _ => none

theorem runs_of_runOf? {of : String} {first : Next} (h : s.runOf? of = some first) :
    ∃ b, s.Runs b (.execute of "" none none) first := by
  unfold runOf? at h
  split at h
  · next hof =>
    split at h
    · next hm =>
      obtain ⟨b, entry, store, boundary, linked, hof', hb, hc, rfl⟩ := callOf?_cases h
      cases hof.symm.trans hof'
      exact ⟨_, .calling hof hb (.intro hc rfl hm)⟩
    · cases h
  · cases h

/-- Calls both instances, which call the provider. -/
def callBoth : List SessionStep := [.execute "i" "" none none, .execute "j" "" none none]

/-- Calls the provider once more, in which this fails, and makes a new instance. -/
def callAgain : List SessionStep := [.execute "i" "" none none, .instantiate "e" "new"]

theorem exists_called_both :
    ∃ s, (start (pairFiles providerText) 1000).run (loadPair ++ (makePair ++ callBoth)) = .ok s ∧
      (∃ linked ∈ s.linked? 0, linked.providers.size = 1 ∧ areOpen linked.providers 0 = true) ∧
      ∃ u ∈ (s.run callAgain).toOption,
        (∃ linked ∈ u.linked? 0, linked.providers.size = 1 ∧ areOpen linked.providers 0 = false) ∧
        ∃ first ∈ u.runOf? "new", ∃ m ∈ first.moreAfter? 12, m.step.trap? = some .cannotEnter ∧
          ∃ asking ∈ m.asking?, (m.store asking.site).links.lookup asking.interface = some 0 :=
  exists_pair plain_provider <| by
    rw [callerText, providerText, String.toList_ofList, String.toList_ofList]
    decide +kernel

/-- A provider that two instances have called is open. When it has failed in a call, it is shut, and turns away what a
new instance calls there. -/
theorem provider_open_when_loaded :
    let before := loadPair ++ (makePair ++ callBoth)
    ∃ s u b first m m' asking, (start (pairFiles providerText) 1000).run before = .ok s ∧
      (∃ linked ∈ s.linked? 0, areOpen linked.providers 0 = true) ∧
      ¬ (start (pairFiles providerText) 1000).FailsIn before 0 0 ∧
      (start (pairFiles providerText) 1000).run (before ++ callAgain) = .ok u ∧
      (∃ linked ∈ u.linked? 0, areOpen linked.providers 0 = false) ∧
      (start (pairFiles providerText) 1000).FailsIn (before ++ callAgain) 0 0 ∧
      u.Runs b (.execute "new" "" none none) first ∧ first.Passes m ∧ m.asking? = some asking ∧
      m.step = .failed m' .cannotEnter ∧
      (m.store 0).Admits asking.interface asking.function asking.args asking.results := by
  intro before
  obtain ⟨s, hrun, ⟨linked, hlinked, hsize, hopen⟩, u, hu, ⟨linked', hlinked', hsize', hshut⟩, first, hfirst, m, hm,
    htrap, asking, hasking, hlink⟩ := exists_called_both
  have hrun' : (start (pairFiles providerText) 1000).run (before ++ callAgain) = .ok u :=
    (run_append hrun callAgain).trans (ok_of_toOption hu)
  obtain ⟨boundary, hb, hc⟩ := of_linked? hlinked
  obtain ⟨boundary', hb', hc'⟩ := of_linked? hlinked'
  obtain ⟨b, hruns⟩ := runs_of_runOf? hfirst
  obtain ⟨m', hstep⟩ := Next.failed_of_trap? htrap
  have hpasses := Next.passes_of_moreAfter? hm
  obtain ⟨hiff, -⟩ := turned_away_iff_failed hrun
  obtain ⟨hiff', hturned⟩ := turned_away_iff_failed hrun'
  have hnever : ¬ (start (pairFiles providerText) 1000).FailsIn before 0 0 := fun hf =>
    Bool.noConfusion (hopen.symm.trans ((hiff 0 boundary linked hb hc 0 (by omega)).mpr hf))
  have hfails := (hiff' 0 boundary' linked' hb' hc' 0 (by omega)).mp hshut
  obtain ⟨hadmits, -⟩ := (hturned b _ first m _ _ _ _ _ _ _ _ 0 hruns hpasses (Machine.asks_of_asking? hasking)
    hlink).mp ⟨m', hstep⟩
  exact ⟨s, u, b, first, m, m', asking, hrun, ⟨linked, hlinked, hopen⟩, hnever, hrun', ⟨linked', hlinked', hshut⟩,
    hfails, hruns, hpasses, hasking, hstep, hadmits⟩

/-- A component whose one function traps. -/
def trappingDefinitions : List (Wat.Definition Nat) := [
  .coreModule none [] [.func none ["f"] ⟨none, none⟩ [] [.simple .unreachable]],
  .coreInstantiate none 0 [],
  .coreAlias .func 0 "f",
  .lift none [] (.inline ⟨[], none⟩) ⟨0, none⟩ [],
  .interface none [] [("f", .func, ⟨0, []⟩)],
  .export none "d" .interface ⟨0, []⟩]

/-- A script that calls it whenever it is called. -/
def callingDefinitions : List (Wat.Definition Nat) := [
  .import "d" none (.interface [("f", .func (.inline ⟨[], none⟩))]),
  .alias .func 0 "f",
  .lower none ⟨0, []⟩ [],
  .coreModule none [] [
    .import 0 "" "f" none [] (.func ⟨none, none⟩),
    .memory none ["m"] ⟨1, none⟩,
    .func none ["r"] ⟨none, some ⟨List.replicate 4 none, 1⟩⟩ [] [.simple (.const 0)],
    .func none ["x"] ⟨none, some ⟨List.replicate 2 none, 1⟩⟩ [] [.call 0, .simple (.const 0)]],
  .coreBundle none [("f", .func, ⟨0, none⟩)],
  .coreInstantiate none 0 [("", .given 0)],
  .coreAlias .func 1 "x",
  .coreAlias .memory 1 "m",
  .coreAlias .func 1 "r",
  .lift none [] (.inline ⟨[("n", .string)], some .string⟩) ⟨1, none⟩ [.memory ⟨0, none⟩, .realloc ⟨2, none⟩],
  .interface none [] [("execute", .func, ⟨1, []⟩)],
  .export none "x" .interface ⟨1, []⟩]

/-- A session in which a script has been loaded at the standard settings. -/
def callingSession (calling : Component) (linked : Linked) : Session :=
  (start bareFiles 1000).place "c"
    (.make ⟨0⟩ ⟨"/base"⟩ none (some (⟨⟨1⟩, ⟨.debug, calling, [], []⟩⟩, linked)))

/-- The traps that some steps end in, behind the making of two instances. -/
def trapsOf (s : Session) (ops : List SessionStep) : Option (List (Option Trap)) :=
  match s.run [.resolve "c.module" "e" .standard, .instantiate "e" "i", .instantiate "e" "j"] with
  | .error _ => none
  | .ok s => (s.trace ops).toOption.map fun answers => answers.map fun
    | .executed (.error (.trap trap)) => some trap
    | _ => none

/-- A script calls a function that traps. Once this has happened to one instance, another cannot get into the
provider any more, though it could without. -/
theorem failure_shuts_out_other_instances :
    ∃ trapping ∈ (Component.check trappingDefinitions).toOption,
    ∃ calling ∈ (Component.check callingDefinitions).toOption,
    ∃ outcome ∈ (Linked.link 100 ⟨bareFiles, ⟨⟨"/"⟩, []⟩, [⟨⟨"/d"⟩, trapping⟩]⟩ none calling).toOption,
    ∃ linked ∈ outcome.toOption,
      (callingSession calling linked).trapsOf [.execute "j" "" none none] = some [some .unreachable] ∧
      (callingSession calling linked).trapsOf [.execute "i" "" none none, .execute "j" "" none none] =
        some [some .unreachable, some .cannotEnter] := by
  decide +kernel

end Session

end ComponentHost
