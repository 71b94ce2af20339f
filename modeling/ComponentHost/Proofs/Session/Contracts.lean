import ComponentHost.Proofs.Component.Exports
import ComponentHost.Proofs.Session.Cancellation
import Mathlib.Data.List.Perm.Basic

/-! # Contracts

A contract is decided by the types of a script alone, before anything is made. What it decides holds of every
instance that is made later: the function is found there, and a call of it that comes to something comes to
one string. -/
set_option autoImplicit false

namespace ComponentHost

/-! ## What a contract comes to -/

namespace Contract

variable {contract : Contract} {c : Component}

theorem isStringToString_iff {type : Component.Signature} :
    isStringToString type = true ↔ type = ⟨[.string], [.string]⟩ := by
  constructor
  · intro h
    unfold isStringToString at h
    split at h
    · next hp hr =>
      obtain ⟨params, results⟩ := type
      rw [show params = _ from hp, show results = _ from hr]
    · cases h
  · rintro rfl
    rfl

theorem isFunction_iff {member : String × Component.Extern} :
    contract.isFunction member = true ↔
      ∃ callee, member = (contract.function, .func callee ⟨[.string], [.string]⟩) := by
  constructor
  · intro h
    unfold isFunction at h
    split at h
    · next name callee type =>
      obtain ⟨hn, ht⟩ := (Bool.and_eq_true _ _).mp h
      rw [isStringToString_iff.mp ht, eq_of_beq hn]
      exact ⟨callee, rfl⟩
    · cases h
  · rintro ⟨callee, rfl⟩
    exact (Bool.and_eq_true _ _).mpr ⟨beq_self_eq_true _, rfl⟩

/-- The candidates for a contract are the interfaces that provide its function. -/
theorem mem_candidates {interface : String} :
    interface ∈ contract.candidates c ↔ c.Provides contract.function interface := by
  unfold candidates Component.Provides
  constructor
  · intro h
    obtain ⟨⟨_, e⟩, he, rfl⟩ := List.mem_map.mp h
    obtain ⟨he, hk⟩ := List.mem_filter.mp he
    cases e with
    | interface members =>
      obtain ⟨member, hm, hf⟩ := List.any_eq_true.mp hk
      obtain ⟨callee, rfl⟩ := isFunction_iff.mp hf
      exact ⟨members, callee, he, hm⟩
    | func | module | component | type => cases hk
  · rintro ⟨members, callee, he, hm⟩
    refine List.mem_map.mpr ⟨(interface, .interface members), List.mem_filter.mpr ⟨he, ?_⟩, rfl⟩
    exact List.any_eq_true.mpr ⟨_, hm, isFunction_iff.mpr ⟨callee, rfl⟩⟩

theorem candidates_sublist (contract : Contract) (c : Component) :
    (contract.candidates c).Sublist c.exportNames :=
  List.filter_sublist.map Prod.fst

/-- The candidates are known when the interfaces that provide the function are, and their order is. -/
theorem candidates_eq (hn : c.exportNames.Nodup) {interfaces : List String}
    (hs : interfaces.Sublist c.exportNames)
    (hm : ∀ interface, interface ∈ interfaces ↔ c.Provides contract.function interface) :
    contract.candidates c = interfaces := by
  have hsublist := contract.candidates_sublist c
  have hperm : (contract.candidates c).Perm interfaces :=
    (List.perm_ext_iff_of_nodup (hn.sublist hsublist) (hn.sublist hs)).mpr fun interface =>
      mem_candidates.trans (hm interface).symm
  exact (hn.perm_iff_eq_of_sublist hsublist hs).mp hperm

theorem resolve_eq_ok_iff (hn : c.exportNames.Nodup) {entry : EntryPoint} :
    contract.resolve c = .ok entry ↔ entry.function = contract.function ∧
      ∀ interface, c.Provides contract.function interface ↔ interface = entry.interface := by
  obtain ⟨interface, function⟩ := entry
  constructor
  · intro h
    unfold resolve at h
    split at h
    · cases h
    · next one hone =>
      cases h
      refine ⟨rfl, fun other => ?_⟩
      rw [← mem_candidates, hone, List.mem_singleton]
    · cases h
  · rintro ⟨rfl, h⟩
    have hprovides := (h interface).mpr rfl
    have hsublist : [interface].Sublist c.exportNames :=
      List.singleton_sublist.mpr ((contract.candidates_sublist c).subset (mem_candidates.mpr hprovides))
    have hone := candidates_eq hn hsublist fun other => List.mem_singleton.trans (h other).symm
    rw [resolve, hone]

theorem resolve_eq_error_iff (hn : c.exportNames.Nodup) {e : EntryPointError} :
    contract.resolve c = .error e ↔
      (e = .noImplementation contract.function ∧ ∀ interface, ¬ c.Provides contract.function interface) ∨
      ∃ interfaces, e = .ambiguous interfaces ∧ 1 < interfaces.length ∧
        interfaces.Sublist c.exportNames ∧
        ∀ interface, interface ∈ interfaces ↔ c.Provides contract.function interface := by
  constructor
  · intro h
    unfold resolve at h
    split at h
    · next hnone =>
      cases h
      refine .inl ⟨rfl, fun interface hp => ?_⟩
      have hm := mem_candidates.mpr hp
      rw [hnone] at hm
      exact List.not_mem_nil hm
    · cases h
    · next hempty hone =>
      cases h
      refine .inr ⟨_, rfl, ?_, contract.candidates_sublist c, fun _ => mem_candidates⟩
      match hfound : contract.candidates c with
      | [] => exact absurd hfound hempty
      | [one] => exact absurd hfound (hone one)
      | first :: second :: rest => simp
  · rintro (⟨rfl, h⟩ | ⟨interfaces, rfl, hl, hs, hm⟩)
    · have hnone : contract.candidates c = [] :=
        List.eq_nil_iff_forall_not_mem.mpr fun interface hm => h interface (mem_candidates.mp hm)
      rw [resolve, hnone]
    · rw [resolve, candidates_eq hn hs hm]
      match interfaces, hl with
      | first :: second :: rest, _ => rfl

/-- What a contract comes to for a component: its entry point if one interface alone provides the function,
and else that there is none, or all interfaces that do, in the order of the exports. -/
structure Decides (contract : Contract) (c : Component) (r : Except EntryPointError EntryPoint) : Prop where
  ok : ∀ entry, r = .ok entry ↔ entry.function = contract.function ∧
    ∀ interface, c.Provides contract.function interface ↔ interface = entry.interface
  error : ∀ e, r = .error e ↔
    (e = .noImplementation contract.function ∧ ∀ interface, ¬ c.Provides contract.function interface) ∨
    ∃ interfaces, e = .ambiguous interfaces ∧ 1 < interfaces.length ∧ interfaces.Sublist c.exportNames ∧
      ∀ interface, interface ∈ interfaces ↔ c.Provides contract.function interface

theorem resolve_decides (contract : Contract) (hn : c.exportNames.Nodup) :
    contract.Decides c (contract.resolve c) :=
  ⟨fun _ => resolve_eq_ok_iff hn, fun _ => resolve_eq_error_iff hn⟩

end Contract

/-- What a call may come to whose function is there and gives a string, where nothing panics: no lock is rejected and
no task is lost. -/
inductive InvocationError.Foreseen : Except InvocationError String → Prop where
  | text (text : String) : Foreseen (.ok text)
  | trap (trap : Trap) : Foreseen (.error (.trap trap))
  | cancelled : Foreseen (.error .cancelled)
  | unloaded : Foreseen (.error .unloaded)

namespace Boundary

variable {b b' : Boundary} {fuel : Nat} {store : Store} {entry : EntryPoint} {argument : String}
  {token : Option Token} {signals : Signals}

theorem missing?_eq_none (hs : store.component.SoundExports)
    (hp : store.component.Provides entry.function entry.interface) : missing? store entry = none := by
  obtain ⟨⟨e, he⟩, lift, -, hm⟩ := hs.member? hp
  unfold missing?
  rw [he, hm]

theorem outcome_foreseen (isCancelled : Bool) {result : Except Trap (List Value)}
    (h : ∀ values, result = .ok values → Value.HaveTypes values [.string]) :
    InvocationError.Foreseen (outcome isCancelled result) := by
  cases result with
  | ok values =>
    obtain ⟨text, rfl⟩ := (h values rfl).eq_string
    exact .text text
  | error trap =>
    cases isCancelled with
    | true => exact .cancelled
    | false => exact .trap trap

/-- A call of a function that the component of the store provides comes to what is foreseen. -/
theorem execute_foreseen {e : Execution} (hb : Law.custody.boundary b)
    (hr : Law.custody.running b entry store) (hs : store.component.SoundExports)
    (hp : store.component.Provides entry.function entry.interface)
    (h : b.execute fuel store entry argument token signals = .ok e) :
    InvocationError.Foreseen e.result := by
  cases execute_cases h with
  | unloaded => exact .unloaded
  | cancelled => exact .cancelled
  | missing hm =>
    rw [missing?_eq_none hs hp] at hm
    cases hm
  | run hc hv =>
    obtain ⟨-, lift, ht, hm⟩ := hs.member? hp
    have hserves := store.receive_serves hm [.string argument] 1 token
    rw [ht] at hserves
    have hproviders := fun p hp => Store.bears_nothing.mp (hb.2 _ hc p hp)
    have hvalues := (Machine.invoke_serves (hb.1 _ hc).providers (hr.1 _ hc) hproviders hr.2 hserves hv).2
    exact outcome_foreseen _ hvalues

end Boundary

/-! ## Sessions -/

/-- That entry points are provided, by scripts and by their instances, as a law for sessions. -/
def Law.contracts : Law where
  boundary := fun b => ∀ linked, b.content = .active linked → linked.script.SoundExports
  entry := fun b entry => ∀ linked, b.content = .active linked →
    linked.script.Provides entry.function entry.interface
  running := fun _ entry store =>
    store.component.SoundExports ∧ store.component.Provides entry.function entry.interface

theorem Law.contracts_keeps (b : Boundary) (providers : Array Store) :
    Law.contracts.Keeps b (b.withProviders providers) := by
  unfold Boundary.withProviders
  split
  · next linked hc =>
    refine ⟨fun hb linked' hc' => ?_, fun entry he linked' hc' => ?_, fun _ _ hs => hs⟩
    · cases hc'
      exact hb linked hc
    · cases hc'
      exact he linked hc
  · exact .refl _ b

theorem Law.contracts_stable : Law.contracts.Stable where
  fades := fun h => {
    boundary := fun hb linked hc => hb linked (h.active hc)
    entry := fun _ he linked hc => he linked (h.active hc)
    running := fun _ _ hs => hs }
  load := by
    intro fs fuel settings id scriptId request outcome h linked hc
    obtain ⟨manifest, script, hs, hl⟩ := Boundary.load_linked h hc
    obtain ⟨-, -, -, he⟩ := Linked.link_ok hl
    rw [he]
    have hcompiled : Sources.Compiled ⟨fs, manifest, script.references⟩ script.component :=
      Compiler.compile_compiled manifest hs
    exact hcompiled.script.soundExports
  resolve := fun {b contract entry} hb h linked hc => by
    unfold Boundary.resolve at h
    rw [hc] at h
    obtain ⟨hf, hi⟩ := (Contract.resolve_eq_ok_iff (hb linked hc).names).mp h
    rw [hf]
    exact (hi entry.interface).mpr rfl
  instantiate := by
    intro b b' fuel entry r hb he h
    cases Boundary.instantiate_cases h with
    | unloaded => exact ⟨.refl _ b, fun _ => nofun⟩
    | trapped => exact ⟨contracts_keeps b _, fun _ => nofun⟩
    | @made linked visit hc hv =>
      refine ⟨contracts_keeps b _, fun store hs => ?_⟩
      cases hs
      -- the store that is made holds the script, so what is known of the script is known of it
      have hcomponent : visit.store.component = linked.script :=
        congrArg Prod.fst (Machine.instantiate_leaves hv).store
      have hrunning : linked.script.SoundExports ∧
          linked.script.Provides entry.function entry.interface := ⟨hb linked hc, he linked hc⟩
      rwa [← hcomponent] at hrunning
  execute := by
    intro b fuel store entry argument token signals e hb hs h
    cases Boundary.execute_cases h with
    | unloaded | cancelled | missing => exact ⟨.refl _ b, hs⟩
    | @run linked visit hc hv =>
      have hcomponent : visit.store.component = store.component :=
        congrArg Prod.fst (Machine.invoke_leaves hv).store
      have hrunning : store.component.SoundExports ∧
          store.component.Provides entry.function entry.interface := hs
      rw [← hcomponent] at hrunning
      exact ⟨contracts_keeps b _, hrunning⟩

namespace Session

variable {s : Session}

/-- A contract is decided for every loaded module by what its script provides. Whatever instance is then made
through an entry point that was found, calling it comes to a string, a trap, a cancellation, or nothing after
an unload, and to no other error: the interface and the function are there, and the result is one string. -/
theorem contracts_hold_when_run {fs : FileSystem} {fuel : Nat} {ops : List SessionStep}
    (h : (start fs fuel).run ops = .ok s) :
    (∀ of b boundary linked, s.handle? of = some (.module b) → s.boundaries[b]? = some boundary →
      boundary.content = .active linked → ∀ name contract, ∃ t r,
        s.step (.resolve of name contract) = .ok (t, .resolved r) ∧ contract.Decides linked.script r) ∧
    ∀ of b entry store argument token cancelAfter t answer,
      s.handle? of = some (.running b entry store) →
      s.step (.execute of argument token cancelAfter) = .ok (t, answer) →
      ∃ r, answer = .executed r ∧ InvocationError.Foreseen r := by
  have hk := (start_kept fs fuel).run h
  have hs := upholds_of_run Law.contracts_stable h
  have hcustody := upholds_of_run Law.custody_stable h
  refine ⟨fun of b boundary linked hof hb hc name contract => ?_,
    fun of b entry store argument token cancelAfter t answer hof hstep => ?_⟩
  · have hdecides := contract.resolve_decides (hs.boundaries b boundary hb linked hc).names
    have hresolve : boundary.resolve contract = contract.resolve linked.script := by
      unfold Boundary.resolve
      rw [hc]
    rw [← hresolve] at hdecides
    simp only [step]
    rw [hof]
    dsimp only
    rw [hb]
    dsimp only
    split
    · next e he => exact ⟨_, _, rfl, he ▸ hdecides⟩
    · next entry he => exact ⟨_, _, rfl, he ▸ hdecides⟩
  · have hb := List.getElem?_eq_getElem (hk.placed _ (mem_of_handle? hof) b rfl)
    obtain ⟨hsound, hprovides⟩ := hs.handles _ (mem_of_handle? hof) b _ rfl hb
    simp only [step] at hstep
    rw [execute_running hof hb] at hstep
    split at hstep
    · cases hstep
    · next e he =>
      cases hstep
      refine ⟨_, rfl, ?_⟩
      exact Boundary.execute_foreseen (hcustody.boundaries b _ hb)
        (hcustody.handles _ (mem_of_handle? hof) b _ rfl hb) hsound hprovides he

/-! ## A contract that is kept -/

/-- The entry point that is found by the contract of the standard, with the number of the boundary of the module. -/
def found? (s : Session) (of : String) : Option (Nat × EntryPoint) :=
  match s.handle? of with
  | some (.module b) => (s.boundaries[b]?).bind fun boundary =>
    (boundary.resolve .standard).toOption.map fun entry => (b, entry)
  | _ => none

theorem of_found? {of : String} {b : Nat} {entry : EntryPoint} (h : s.found? of = some (b, entry)) (name : String) :
    s.handle? of = some (.module b) ∧ ∃ t, s.step (.resolve of name .standard) = .ok (t, .resolved (.ok entry)) := by
  unfold found? at h
  split at h
  · next hof =>
    obtain ⟨boundary, hb, h⟩ := Option.bind_eq_some_iff.mp h
    obtain ⟨entry', hr, he⟩ := Option.map_eq_some_iff.mp h
    cases he
    refine ⟨hof, s.add name (.entry b entry), ?_⟩
    simp only [step]
    rw [hof]
    dsimp only
    rw [hb]
    dsimp only
    rw [ok_of_toOption hr]
  · cases h

/-- What a step leaves that calls an instance, and what the call comes to. -/
def called? (s : Session) (of : String) (token : Option String) : Option (Session × Except InvocationError String) :=
  match s.handle? of, s.step (.execute of "" token none) with
  | some (.running _ _ _), .ok (t, .executed r) => some (t, r)
  | _, _ => none

theorem of_called? {of : String} {token : Option String} {t : Session} {r : Except InvocationError String}
    (h : s.called? of token = some (t, r)) :
    (∃ b entry store, s.handle? of = some (.running b entry store)) ∧
      s.step (.execute of "" token none) = .ok (t, .executed r) := by
  unfold called? at h
  split at h
  · next hof hstep =>
    cases h
    exact ⟨⟨_, _, _, hof⟩, hstep⟩
  · cases h

/-- An entry point is found, and an instance made through it is called two times. The first call returns a text and
the second one does not. -/
theorem contract_decided_when_loaded :
    ∃ s boundary linked u t t' r, (start bareFiles 1000).run (loadOnce ++ makeOnce) = .ok s ∧
      s.handle? "c.module" = some (.module 0) ∧ s.boundaries[0]? = some boundary ∧ boundary.content = .active linked ∧
      s.step (.resolve "c.module" "again" .standard) = .ok (u, .resolved (.ok ⟨"e", "execute"⟩)) ∧
      Contract.standard.Decides linked.script (.ok ⟨"e", "execute"⟩) ∧
      s.step (.execute "i" "" none none) = .ok (t, .executed (.ok "")) ∧ InvocationError.Foreseen (.ok "") ∧
      t.step (.execute "i" "" none none) = .ok (t', .executed r) ∧ InvocationError.Foreseen r ∧ r.toOption = none := by
  have hs : ∃ s, (start bareFiles 1000).run (loadOnce ++ makeOnce) = .ok s ∧
      s.found? "c.module" = some (0, ⟨"e", "execute"⟩) ∧ (∃ linked ∈ s.linked? 0, linked.script.imports = []) ∧
      ∃ first ∈ s.called? "i" none, first.2.toOption = some "" ∧
        ∃ second ∈ first.1.called? "i" none, second.2.toOption = none :=
    exists_once <| by
      rw [onceText, String.toList_ofList]
      decide +kernel
  obtain ⟨s, hrun, hfound, ⟨linked, hlinked, -⟩, ⟨t, r⟩, hfirst, htext, ⟨t', r'⟩, hsecond, hfails⟩ := hs
  obtain ⟨boundary, hb, hc⟩ := of_linked? hlinked
  obtain ⟨hmodule, u, hresolved⟩ := of_found? hfound "again"
  obtain ⟨⟨b, entry, store, hof⟩, hstep⟩ := of_called? hfirst
  obtain ⟨⟨b', entry', store', hof'⟩, hstep'⟩ := of_called? hsecond
  obtain rfl : r = .ok "" := ok_of_toOption htext
  obtain ⟨hdecides, hcalls⟩ := contracts_hold_when_run hrun
  obtain ⟨u', r, hr, hdecides⟩ := hdecides _ 0 boundary linked hmodule hb hc "again" .standard
  cases hresolved.symm.trans hr
  obtain ⟨_, he, hforeseen⟩ := hcalls "i" b entry store "" none none t _ hof hstep
  cases he
  have hrun' : (start bareFiles 1000).run (loadOnce ++ makeOnce ++ [.execute "i" "" none none]) = .ok t :=
    (run_append hrun _).trans ((run_cons hstep).mpr rfl)
  obtain ⟨_, he, hforeseen'⟩ := (contracts_hold_when_run hrun').2 "i" b' entry' store' "" none none t' _ hof' hstep'
  cases he
  exact ⟨s, boundary, linked, u, t, t', r', hrun, hmodule, hb, hc, hresolved, hdecides, hstep, hforeseen, hstep',
    hforeseen', hfails⟩

end Session

end ComponentHost
