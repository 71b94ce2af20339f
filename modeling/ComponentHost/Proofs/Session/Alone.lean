import ComponentHost.Proofs.Session.Failures

/-! # Scripts that import nothing

Such a script is linked with nothing. So whatever is made of it and called is run over no providers, and its
boundary stays as it was. -/
set_option autoImplicit false

namespace ComponentHost

namespace Boundary

variable {b b' : Boundary} {fuel : Nat} {script : Component}

/-- A script that imports nothing is linked with nothing, if it is what is loaded in a boundary. -/
def Alone (b : Boundary) : Prop :=
  ∀ linked, b.content = .active linked → linked.script.imports = [] → linked = .alone linked.script

theorem Fades.alone (h : b.Fades b') (hb : b.Alone) : b'.Alone :=
  fun linked hc => hb linked (h.active hc)

theorem withProviders_alone {linked : Linked} {providers : Array Store} (hc : b.content = .active linked)
    (hp : providers.map Store.wiring = linked.providers.map Store.wiring) (hb : b.Alone) :
    (b.withProviders providers).Alone := by
  intro linked' hc' hi
  unfold withProviders at hc'
  rw [hc] at hc'
  cases hc'
  have hempty : linked.providers = #[] := congrArg Linked.providers (hb linked hc hi)
  have hlinks : linked.links = [] := congrArg Linked.links (hb linked hc hi)
  have hproviders : providers = #[] := by
    rw [hempty, Array.map_empty] at hp
    exact Array.map_eq_empty_iff.mp hp
  rw [hproviders, hlinks]
  rfl

/-- Whatever providers stand where none did, there are none. -/
theorem withProviders_of_alone {providers : Array Store} (hc : b.content = .active (.alone script))
    (hp : providers.map Store.wiring = (Linked.alone script).providers.map Store.wiring) :
    b.withProviders providers = b := by
  have hproviders : providers = (Linked.alone script).providers := by
    rw [Linked.alone, Array.map_empty] at hp
    exact Array.map_eq_empty_iff.mp hp
  rw [hproviders, withProviders_self hc]

theorem instantiate_of_alone {r : Except EntryPointError Store}
    (hc : ∀ linked, b.content = .active linked → linked = .alone script) (h : b.instantiate fuel = .ok (b', r)) :
    b' = b := by
  cases instantiate_cases h with
  | unloaded => rfl
  | trapped hc' hv | made hc' hv =>
    cases hc _ hc'
    exact withProviders_of_alone hc' (Machine.instantiate_leaves hv).providers

theorem execute_of_alone {store : Store} {entry : EntryPoint} {argument : String} {token : Option Token}
    {signals : Signals} {e : Execution} (hc : ∀ linked, b.content = .active linked → linked = .alone script)
    (h : b.execute fuel store entry argument token signals = .ok e) : e.boundary = b := by
  cases execute_cases h with
  | unloaded | cancelled | missing => rfl
  | run hc' hv =>
    cases hc _ hc'
    exact withProviders_of_alone hc' (Machine.invoke_leaves hv).providers

theorem load_alone {fs : FileSystem} {settings : Settings} {id scriptId : Id} {request : LoadRequest}
    {outcome : LoadOutcome} (h : load fs fuel settings id scriptId request = .ok (.ok outcome)) :
    outcome.boundary.Alone := by
  intro linked hc hi
  obtain ⟨manifest, compiled, -, hl⟩ := load_linked h hc
  obtain ⟨-, -, -, hscript⟩ := Linked.link_ok hl
  rw [hscript] at hi ⊢
  rw [Linked.link_alone hi] at hl
  exact (Except.ok.inj (Except.ok.inj hl)).symm

end Boundary

/-- That scripts which import nothing are linked with nothing, as a law for sessions. -/
def Law.alone : Law where
  boundary := Boundary.Alone
  entry := fun _ _ => True
  running := fun _ _ _ => True

theorem Law.alone_stable : Law.alone.Stable where
  fades := fun h => ⟨h.alone, fun _ => id, fun _ _ => id⟩
  load := Boundary.load_alone
  resolve := fun _ _ => trivial
  instantiate := by
    intro b b' fuel entry r hb _ hi
    refine ⟨⟨fun _ => ?_, fun _ => id, fun _ _ => id⟩, fun _ _ => trivial⟩
    cases Boundary.instantiate_cases hi with
    | unloaded => exact hb
    | trapped hc hv | made hc hv =>
      exact Boundary.withProviders_alone hc (Machine.instantiate_leaves hv).providers hb
  execute := by
    intro b fuel store entry argument token signals e hb _ he
    refine ⟨⟨fun _ => ?_, fun _ => id, fun _ _ => id⟩, trivial⟩
    cases Boundary.execute_cases he with
    | unloaded | cancelled | missing => exact hb
    | run hc hv => exact Boundary.withProviders_alone hc (Machine.invoke_leaves hv).providers hb

/-! ## What a boundary offers -/

/-- Whatever is loaded in a boundary is this script, under this limit. -/
structure Boundary.Offers (b : Boundary) (script : Component) (maxMemoryBytes : Option Nat) : Prop where
  maxMemoryBytes : b.maxMemoryBytes = maxMemoryBytes
  script : ∀ linked, b.content = .active linked → linked.script = script

theorem Boundary.Fades.offers {b b' : Boundary} {script : Component} {maxMemoryBytes : Option Nat} (h : b.Fades b')
    (hb : b.Offers script maxMemoryBytes) : b'.Offers script maxMemoryBytes where
  maxMemoryBytes := h.maxMemoryBytes.trans hb.maxMemoryBytes
  script := fun linked hc => hb.script linked (h.active hc)

theorem Boundary.Offers.withProviders {b : Boundary} {script : Component} {maxMemoryBytes : Option Nat}
    (hb : b.Offers script maxMemoryBytes) (providers : Array Store) :
    (b.withProviders providers).Offers script maxMemoryBytes := by
  unfold Boundary.withProviders
  split
  · next linked hc =>
    refine ⟨hb.maxMemoryBytes, fun linked' hc' => ?_⟩
    cases hc'
    exact hb.script linked hc
  · exact hb

namespace Session

variable {s t : Session} {b : Nat} {script : Component} {maxMemoryBytes : Option Nat}

/-- A boundary of a session offers this script, under this limit. -/
def Offers (s : Session) (b : Nat) (script : Component) (maxMemoryBytes : Option Nat) : Prop :=
  ∃ boundary, s.boundaries[b]? = some boundary ∧ boundary.Offers script maxMemoryBytes

theorem Offers.fade (h : s.Offers b script maxMemoryBytes) (hf : s.Fades t)
    (hl : s.boundaries.length ≤ t.boundaries.length) : t.Offers b script maxMemoryBytes := by
  obtain ⟨boundary, hb, ho⟩ := h
  have hlt : b < t.boundaries.length := Nat.lt_of_lt_of_le (List.getElem?_eq_some_iff.mp hb).1 hl
  obtain ⟨old, hold, hfade⟩ := hf b _ (List.getElem?_eq_getElem hlt)
  cases hb.symm.trans hold
  exact ⟨_, List.getElem?_eq_getElem hlt, hfade.offers ho⟩

theorem Offers.move (h : s.Offers b script maxMemoryBytes) (hm : Move s t) : t.Offers b script maxMemoryBytes := by
  cases hm with
  | idle hb => exact h.fade (.of_eq hb) (Nat.le_of_eq (congrArg List.length hb.symm))
  | make name | observe name | token name => exact h.fade (.add s name _) (by simp)
  | drop name => exact h.fade (.drop s name) (by simp)
  | store => exact h
  | use c providers =>
    obtain ⟨boundary, hb, ho⟩ := h
    refine ⟨_, by rw [update, List.getElem?_modify, hb]; rfl, ?_⟩
    split
    · exact ho.withProviders providers
    · exact ho
  | load name id baseDir limit loaded =>
    obtain ⟨boundary, hb, ho⟩ := h
    have happend : (({ s with
        boundaries := s.boundaries ++ [.make id baseDir limit loaded]
        nextId := s.nextId + 2 } : Session).recordLoad name (some s.boundaries.length)).Offers b script
          maxMemoryBytes :=
      ⟨boundary, (List.getElem?_append_left (List.getElem?_eq_some_iff.mp hb).1).trans hb, ho⟩
    have hcontext := happend.fade (.bind _ name (.context s.boundaries.length)) (by simp)
    unfold place
    dsimp only
    split
    · exact hcontext.fade (.bind _ _ _) (by simp)
    · exact hcontext

theorem Offers.requestUnload (h : s.Offers b script maxMemoryBytes) (c : Nat) :
    (s.update c Boundary.requestUnload).Offers b script maxMemoryBytes :=
  h.fade (.update s c fun boundary => boundary.requestUnload_fades) (by simp)

theorem Offers.step {op : SessionStep} {a : SessionAnswer} (h : s.Offers b script maxMemoryBytes) (hk : s.Kept [])
    (hs : s.step op = .ok (t, a)) : t.Offers b script maxMemoryBytes :=
  hk.step_keep (P := fun s => s.Offers b script maxMemoryBytes) Offers.move (fun _ c h => h.requestUnload c) h hs

theorem Offers.run {ops : List SessionStep} (h : s.Offers b script maxMemoryBytes) (hk : s.Kept [])
    (hs : s.run ops = .ok t) : t.Offers b script maxMemoryBytes :=
  hk.run_keep (P := fun s => s.Offers b script maxMemoryBytes) Offers.move (fun _ c h => h.requestUnload c) h hs

/-- What is loaded in a boundary that offers a script without imports. -/
theorem Offers.alone (h : s.Offers b script maxMemoryBytes) (hs : s.Upholds Law.alone) (hi : script.imports = []) :
    ∃ boundary, s.boundaries[b]? = some boundary ∧ boundary.maxMemoryBytes = maxMemoryBytes ∧
      ∀ linked, boundary.content = .active linked → linked = .alone script := by
  obtain ⟨boundary, hb, ho⟩ := h
  refine ⟨boundary, hb, ho.maxMemoryBytes, fun linked hc => ?_⟩
  have hscript := ho.script linked hc
  rw [hs.boundaries b boundary hb linked hc (hscript ▸ hi), hscript]

end Session

end ComponentHost
