import ComponentHost.Proofs.Dependency.Plan
import ComponentHost.Proofs.Machine.Chain

/-! # The instances of a plan

The instances of providers are made in the order of their numbers, each in a store behind those before it,
and keep what they are linked to. Whatever a plan comes to, its providers are linked to smaller numbers
only, so no instance that is made for it ever waits for itself. -/
set_option autoImplicit false

namespace ComponentHost

/-- The component of a provider and the numbers that its imports lead to. -/
def Provider.wiring (p : Provider) : Component × List (String × Nat) := (p.component, p.links)

namespace Plan

/-! ## Numbers that go down -/

/-- Every provider is linked to smaller numbers than its own. -/
def LinksDown (providers : List Provider) : Prop :=
  ∀ (number : Nat) (p : Provider), providers[number]? = some p → ∀ l ∈ p.links, l.2 < number

theorem LinksDown.left {before after : List Provider} (h : LinksDown (before ++ after)) :
    LinksDown before := by
  intro number p hp
  refine h number p ?_
  rw [List.getElem?_append_left (List.getElem?_eq_some_iff.mp hp).1, hp]

/-- Numbers lead to providers, and every provider is linked to smaller numbers. -/
structure Numbered (plan : Plan) : Prop where
  slots : ∀ name number,
    plan.slots.lookup name = some (.loaded number) → number < plan.providers.length
  links : LinksDown plan.providers

/-- A plan goes over to one that has no fewer providers, still with numbers that go down. -/
structure Enlarges (plan plan' : Plan) : Prop where
  numbered : plan'.Numbered
  length_le : plan.providers.length ≤ plan'.providers.length

variable {sources : Sources} {plan plan' plan'' : Plan} {name : String}

theorem Enlarges.trans (h : plan.Enlarges plan') (h' : plan'.Enlarges plan'') : plan.Enlarges plan'' :=
  ⟨h'.numbered, Nat.le_trans h.length_le h'.length_le⟩

theorem Numbered.fill (h : plan.Numbered) (name : String) {slot : Slot}
    (hslot : ∀ number, slot = .loaded number → number < plan.providers.length) :
    (plan.fill name slot).Numbered where
  slots := by
    intro other number hl
    by_cases ho : other = name
    · subst ho
      rw [lookup_fill_self] at hl
      exact hslot number (Option.some.inj hl)
    · rw [lookup_fill_of_ne plan slot ho] at hl
      exact h.slots other number hl
  links := h.links

theorem Numbered.add (h : plan.Numbered) {p : Provider}
    (hp : ∀ l ∈ p.links, l.2 < plan.providers.length) : plan.Enlarges (plan.add p) where
  numbered := by
    refine ⟨fun other number hl => ?_, fun number q hq => ?_⟩
    · rw [add_providers, List.length_append, List.length_singleton]
      rw [add_slots] at hl
      by_cases ho : other = p.name
      · subst ho
        rw [lookup_fill_self] at hl
        cases hl
        exact Nat.lt_succ_self _
      · rw [lookup_fill_of_ne plan _ ho] at hl
        exact Nat.lt_succ_of_lt (h.slots other number hl)
    · rw [add_providers, List.getElem?_append] at hq
      split at hq
      · exact h.links number q hq
      · next hge =>
        obtain ⟨hz, rfl⟩ := List.getElem?_eq_some_iff.mp hq
        rw [List.length_singleton] at hz
        intro l hl
        have := hp l (by simpa using hl)
        omega
  length_le := by simp

theorem linkImports_numbered {number : Plan → String → Plan × Except LinkError Nat}
    (hnumber : ∀ plan name, plan.Numbered → plan.Enlarges (number plan name).1 ∧
      ∀ n, (number plan name).2 = .ok n → n < (number plan name).1.providers.length)
    (imports : List (String × Component.ExternType)) (links : List (String × Nat))
    (h : plan.Numbered) (hl : ∀ l ∈ links, l.2 < plan.providers.length) :
    plan.Enlarges (linkImports number plan links imports).1 ∧
      ∀ links', (linkImports number plan links imports).2 = .ok links' →
        ∀ l ∈ links', l.2 < (linkImports number plan links imports).1.providers.length := by
  induction imports generalizing plan links with
  | nil =>
    refine ⟨⟨h, Nat.le_refl _⟩, fun links' he => ?_⟩
    cases he
    exact hl
  | cons i rest ih =>
    obtain ⟨import', t⟩ := i
    cases t with
    | interface members =>
      obtain ⟨hlarger, hlt⟩ := hnumber plan import' h
      rw [linkImports]
      split
      · next hn =>
        rw [hn] at hlarger
        exact ⟨hlarger, fun _ h => by cases h⟩
      · next middle n hn =>
        rw [hn] at hlarger hlt
        split
        · exact ⟨hlarger, fun _ h => by cases h⟩
        · split
          · exact ⟨hlarger, fun _ h => by cases h⟩
          · have hl' : ∀ l ∈ links ++ [(import', n)], l.2 < middle.providers.length := by
              intro l hm
              rcases List.mem_append.mp hm with hm | hm
              · exact Nat.lt_of_lt_of_le (hl l hm) hlarger.length_le
              · rw [List.mem_singleton.mp hm]
                exact hlt n rfl
            obtain ⟨hlarger', hlinks⟩ := ih _ hlarger.numbered hl'
            exact ⟨hlarger.trans hlarger', hlinks⟩
    | func | module | component | type =>
      exact ⟨⟨h, Nat.le_refl _⟩, fun _ h => by cases h⟩

theorem resolve_numbered (depth : Nat) (plan : Plan) (name : String) (h : plan.Numbered) :
    plan.Enlarges (resolve sources depth plan name).1 ∧
      ∀ n, (resolve sources depth plan name).2 = .ok n →
        n < (resolve sources depth plan name).1.providers.length := by
  induction depth generalizing plan name with
  | zero => exact ⟨⟨h, Nat.le_refl _⟩, fun _ h => by cases h⟩
  | succ depth ih =>
    rw [resolve]
    split
    · next number hs =>
      refine ⟨⟨h, Nat.le_refl _⟩, fun n he => ?_⟩
      cases he
      exact h.slots name number hs
    · exact ⟨⟨h, Nat.le_refl _⟩, fun _ h => by cases h⟩
    · have hfill : (plan.fill name .loading).Numbered := h.fill name fun _ h => by cases h
      dsimp only
      split
      · exact ⟨⟨hfill, Nat.le_refl _⟩, fun _ h => by cases h⟩
      · next component _ =>
        obtain ⟨hlarger, hlinks⟩ := linkImports_numbered ih component.imports [] hfill (by simp)
        split
        · next hl =>
          rw [hl] at hlarger
          exact ⟨⟨hlarger.numbered, hlarger.length_le⟩, fun _ h => by cases h⟩
        · next middle links hl =>
          rw [hl] at hlarger hlinks
          have hadd := hlarger.numbered.add (p := ⟨name, component, links⟩) (hlinks links rfl)
          refine ⟨⟨hadd.numbered, Nat.le_trans hlarger.length_le hadd.length_le⟩, fun n he => ?_⟩
          cases he
          rw [add_providers, List.length_append]
          exact Nat.lt_succ_self _

theorem ofScript_numbered (sources : Sources) (script : Component) :
    (ofScript sources script).1.Numbered ∧ ∀ links, (ofScript sources script).2 = .ok links →
      ∀ l ∈ links, l.2 < (ofScript sources script).1.providers.length := by
  have hempty : empty.Numbered := ⟨by simp [empty], by simp [empty, LinksDown]⟩
  have hall : empty.Enlarges (ofScript sources script).1 ∧ ∀ links, (ofScript sources script).2 = .ok links →
      ∀ l ∈ links, l.2 < (ofScript sources script).1.providers.length :=
    linkImports_numbered (resolve_numbered _) script.imports [] hempty (by simp)
  exact ⟨hall.1.numbered, hall.2⟩

end Plan

namespace Linked

variable {fuel : Nat} {maxMemoryBytes : Option Nat} {stores stores' : Array Store}
  {providers rest : List Provider} {sources : Sources} {script : Component} {linked : Linked}

/-! ## Stage by stage -/

theorem instantiateAll_append
    (h : instantiateAll fuel maxMemoryBytes stores providers = .ok (.ok stores')) :
    instantiateAll fuel maxMemoryBytes stores (providers ++ rest) =
      instantiateAll fuel maxMemoryBytes stores' rest := by
  induction providers generalizing stores with
  | nil =>
    cases h
    rfl
  | cons p providers ih =>
    rw [instantiateAll] at h
    rw [List.cons_append, instantiateAll]
    split at h
    · cases h
    · split at h
      · cases h
      · exact ih h

/-- A list of providers is done when its first part is, and then the rest. -/
theorem instantiateAll_split
    (h : instantiateAll fuel maxMemoryBytes stores (providers ++ rest) = .ok (.ok stores')) :
    ∃ middle, instantiateAll fuel maxMemoryBytes stores providers = .ok (.ok middle) ∧
      instantiateAll fuel maxMemoryBytes middle rest = .ok (.ok stores') := by
  induction providers generalizing stores with
  | nil => exact ⟨stores, rfl, h⟩
  | cons p providers ih =>
    rw [List.cons_append, instantiateAll] at h
    rw [instantiateAll]
    split at h
    · cases h
    · split at h
      · cases h
      · exact ih h

/-- What a new instance has whenever those before it have it, and leaves them with, all instances have. -/
theorem instantiateAll_forall {P : Store → Prop}
    (hP : ∀ {stores : Array Store} {p : Provider} {visit : Visit}, (∀ s ∈ stores, P s) →
      Machine.instantiate fuel stores (p.store maxMemoryBytes) = .ok visit →
      P visit.store ∧ ∀ s ∈ visit.providers, P s)
    (hs : ∀ s ∈ stores, P s)
    (h : instantiateAll fuel maxMemoryBytes stores providers = .ok (.ok stores')) :
    ∀ s ∈ stores', P s := by
  induction providers generalizing stores with
  | nil =>
    cases h
    exact hs
  | cons p providers ih =>
    rw [instantiateAll] at h
    split at h
    · cases h
    · next visit hv =>
      obtain ⟨hstore, hproviders⟩ := hP hs hv
      split at h
      · cases h
      · refine ih (fun s hm => ?_) h
        rcases Array.mem_push.mp hm with hm | rfl
        · exact hproviders s hm
        · exact hstore

/-- The instances that have been made are those of the providers, in order. -/
theorem instantiateAll_wiring
    (h : instantiateAll fuel maxMemoryBytes stores providers = .ok (.ok stores')) :
    stores'.map Store.wiring = stores.map Store.wiring ++ (providers.map Provider.wiring).toArray := by
  induction providers generalizing stores with
  | nil =>
    cases h
    simp
  | cons p providers ih =>
    rw [instantiateAll] at h
    split at h
    · cases h
    · next visit hv =>
      split at h
      · cases h
      · have hleaves := Machine.instantiate_leaves hv
        have hstore : visit.store.wiring = p.wiring := hleaves.store
        rw [ih h, Array.map_push, hleaves.providers, hstore]
        simp

theorem size_of_instantiateAll
    (h : instantiateAll fuel maxMemoryBytes #[] providers = .ok (.ok stores)) :
    stores.size = providers.length := by
  simpa using congrArg Array.size (instantiateAll_wiring h)

theorem inOrder_of_wiring (hlinks : Plan.LinksDown providers)
    (hw : stores.map Store.wiring = (providers.map Provider.wiring).toArray) : Machine.InOrder stores := by
  intro number l hl
  rw [Array.getD_eq_getD_getElem?] at hl
  have hn := congrArg (·[number]?) hw
  simp only [Array.getElem?_map, List.getElem?_toArray, List.getElem?_map] at hn
  cases hs : stores[number]? with
  | none =>
    rw [hs] at hl
    cases hl
  | some store =>
    rw [hs] at hl hn
    obtain ⟨p, hp, he⟩ := Option.map_eq_some_iff.mp hn.symm
    have hll : p.links = store.links := congrArg Prod.snd he
    exact hlinks number p hp l (hll ▸ hl)

theorem wiring_of_instantiateAll
    (h : instantiateAll fuel maxMemoryBytes #[] providers = .ok (.ok stores)) :
    stores.map Store.wiring = (providers.map Provider.wiring).toArray := by
  rw [instantiateAll_wiring h, Array.map_empty, Array.empty_append]

theorem inOrder_of_instantiateAll (hlinks : Plan.LinksDown providers)
    (h : instantiateAll fuel maxMemoryBytes #[] providers = .ok (.ok stores)) :
    Machine.InOrder stores := inOrder_of_wiring hlinks (wiring_of_instantiateAll h)

/-! ## No instance waits for itself -/

/-- When all instances before one are made, the making of that one never waits for itself. -/
theorem making_neverBlocks {before after : List Provider} {p : Provider}
    (hlinks : Plan.LinksDown (before ++ p :: after))
    (h : instantiateAll fuel maxMemoryBytes #[] before = .ok (.ok stores)) :
    (Machine.making stores (p.store maxMemoryBytes)).NeverBlocks stores.size := by
  refine Machine.making_neverBlocks (inOrder_of_instantiateAll hlinks.left h) ?_
  rw [size_of_instantiateAll h]
  exact hlinks before.length p (by simp)

theorem instantiateAll_stall {stall : Stall} (before : List Provider)
    (hlinks : Plan.LinksDown (before ++ providers))
    (hbefore : instantiateAll fuel maxMemoryBytes #[] before = .ok (.ok stores))
    (h : instantiateAll fuel maxMemoryBytes stores providers = .error stall) :
    stall = .unfinished := by
  induction providers generalizing before stores with
  | nil => cases h
  | cons p rest ih =>
    have hstage := making_neverBlocks hlinks hbefore
    rw [instantiateAll] at h
    split at h
    · next stall' hv =>
      cases h
      exact Machine.finish_stall hstage hv
    · next visit hv =>
      split at h
      · cases h
      · next hr =>
        refine ih (before ++ [p]) (by simpa using hlinks) ?_ h
        rw [instantiateAll_append hbefore, instantiateAll, hv]
        dsimp only
        rw [hr]
        rfl

/-- A linking that does not end has run out of steps. -/
theorem link_stall {stall : Stall}
    (h : link fuel sources maxMemoryBytes script = .error stall) : stall = .unfinished := by
  have hlinks := (Plan.ofScript_numbered sources script).1.links
  unfold link at h
  dsimp only at h
  split at h
  · next hi =>
    cases h
    exact instantiateAll_stall [] hlinks rfl hi
  · cases h
  · cases h

/-! ## What a link leaves -/

/-- The providers are in order, and the script is linked to them. -/
structure InOrder (linked : Linked) : Prop where
  providers : Machine.InOrder linked.providers
  links : ∀ l ∈ linked.links, l.2 < linked.providers.size

theorem link_ok (h : link fuel sources maxMemoryBytes script = .ok (.ok linked)) :
    ∃ plan, Plan.ofScript sources script = (plan, .ok linked.links) ∧
      instantiateAll fuel maxMemoryBytes #[] plan.providers = .ok (.ok linked.providers) ∧
      linked.script = script := by
  unfold link at h
  cases hp : Plan.ofScript sources script with
  | mk plan outcome =>
    rw [hp] at h
    dsimp only at h
    split at h
    · cases h
    · cases h
    · next stores hi =>
      cases outcome with
      | error e => cases h
      | ok links =>
        cases h
        exact ⟨plan, rfl, hi, rfl⟩

/-- The making of an instance of one of the providers for a script, when those before it are made. -/
def Stage (fuel : Nat) (sources : Sources) (maxMemoryBytes : Option Nat) (script : Component)
    (start : Next) : Prop :=
  ∃ before p after stores, (Plan.ofScript sources script).1.providers = before ++ p :: after ∧
    instantiateAll fuel maxMemoryBytes #[] before = .ok (.ok stores) ∧
    start = Machine.making stores (p.store maxMemoryBytes)

theorem Stage.neverBlocks {start : Next} (hs : Stage fuel sources maxMemoryBytes script start)
    (h : link fuel sources maxMemoryBytes script = .ok (.ok linked)) :
    start.NeverBlocks linked.providers.size := by
  obtain ⟨before, p, after, stores, hb, hi, rfl⟩ := hs
  obtain ⟨plan, hp, hall, -⟩ := link_ok h
  have hlinks := (Plan.ofScript_numbered sources script).1.links
  rw [hb] at hlinks
  refine (making_neverBlocks hlinks hi).mono ?_
  rw [size_of_instantiateAll hi, size_of_instantiateAll hall]
  rw [hp] at hb
  rw [hb, List.length_append]
  exact Nat.le_add_right _ _

theorem inOrder_of_link (h : link fuel sources maxMemoryBytes script = .ok (.ok linked)) :
    linked.InOrder := by
  obtain ⟨plan, hp, hi, -⟩ := link_ok h
  obtain ⟨hnumbered, hlinks⟩ := Plan.ofScript_numbered sources script
  rw [hp] at hnumbered hlinks
  refine ⟨inOrder_of_instantiateAll hnumbered.links hi, ?_⟩
  rw [size_of_instantiateAll hi]
  exact hlinks _ rfl

end Linked

end ComponentHost
