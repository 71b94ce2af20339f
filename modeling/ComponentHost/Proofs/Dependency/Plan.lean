import ComponentHost.Proofs.Dependency.Graph
import ComponentHost.Proofs.Entries

/-! # Plans

The invariant of a plan while names are being looked at: the open slots are those of the names on the
stack, the filled slots are those of the providers, and every provider imports from smaller numbers. It
carries a name that is resolved, and the list of a component's imports, to a plan that is sound again.
-/
set_option autoImplicit false

namespace ComponentHost.Plan

/-! ## Slots -/

@[simp] theorem fill_providers (plan : Plan) (name : String) (slot : Slot) :
    (plan.fill name slot).providers = plan.providers := rfl

@[simp] theorem lookup_fill_self (plan : Plan) (name : String) (slot : Slot) :
    (plan.fill name slot).slots.lookup name = some slot := List.lookup_cons_self

theorem lookup_fill_of_ne (plan : Plan) (slot : Slot) {name other : String} (h : other ≠ name) :
    (plan.fill name slot).slots.lookup other = plan.slots.lookup other :=
  Entries.lookup_put_of_ne plan.slots slot h

@[simp] theorem add_providers (plan : Plan) (p : Provider) :
    (plan.add p).providers = plan.providers ++ [p] := rfl

theorem add_slots (plan : Plan) (p : Provider) :
    (plan.add p).slots = (plan.fill p.name (.loaded plan.providers.length)).slots := rfl

/-! ## Numbers -/

/-- The number belongs to the provider of a name. -/
def Numbers (plan : Plan) (name : String) (number : Nat) : Prop :=
  ∃ p, plan.providers[number]? = some p ∧ p.name = name

theorem Numbers.mono {plan plan' : Plan} {name : String} {number : Nat}
    (h : plan.Numbers name number) (grows : plan.providers <+: plan'.providers) :
    plan'.Numbers name number := by
  obtain ⟨p, hp, hn⟩ := h
  obtain ⟨more, hm⟩ := grows
  refine ⟨p, ?_, hn⟩
  rw [← hm, List.getElem?_append_left (List.getElem?_eq_some_iff.mp hp).1, hp]

theorem Numbers.lt {plan : Plan} {name : String} {number : Nat} (h : plan.Numbers name number) :
    number < plan.providers.length := by
  obtain ⟨p, hp, -⟩ := h
  exact (List.getElem?_eq_some_iff.mp hp).1

theorem numbers_add (plan : Plan) (p : Provider) (name : String) (number : Nat) :
    (plan.add p).Numbers name number ↔
      plan.Numbers name number ∨ number = plan.providers.length ∧ p.name = name := by
  unfold Numbers
  rw [add_providers]
  rcases Nat.lt_trichotomy number plan.providers.length with h | h | h
  · have he : number ≠ plan.providers.length := by omega
    simp [List.getElem?_append_left h, he]
  · subst h
    simp
  · have hn : plan.providers[number]? = none := List.getElem?_eq_none (by omega)
    have ha : (plan.providers ++ [p])[number]? = none := List.getElem?_eq_none (by simp; omega)
    rw [hn, ha]
    have he : number ≠ plan.providers.length := by omega
    simp [he]

/-! ## The invariant -/

/-- What is known of the provider with a number. -/
structure Settled (sources : Sources) (plan : Plan) (number : Nat) (p : Provider) : Prop where
  provides : sources.Provides p.name p.component
  exported : p.name ∈ p.component.exportNames
  functions : p.component.ImportsFunctions
  names : p.links.map Prod.fst = p.component.importNames
  links : ∀ l ∈ p.links, l.2 < number ∧ plan.Numbers l.1 l.2

theorem Settled.mono {sources : Sources} {plan plan' : Plan} {number : Nat} {p : Provider}
    (h : Settled sources plan number p) (grows : plan.providers <+: plan'.providers) :
    Settled sources plan' number p :=
  { h with links := fun l hl => ⟨(h.links l hl).1, (h.links l hl).2.mono grows⟩ }

/-- A plan while the imports of the providers of the names on a stack are being looked at. -/
structure Sound (sources : Sources) (stack : List String) (plan : Plan) : Prop where
  loading : ∀ name, plan.slots.lookup name = some .loading ↔ name ∈ stack
  loaded : ∀ name number,
    plan.slots.lookup name = some (.loaded number) ↔ plan.Numbers name number
  settled : ∀ number p, plan.providers[number]? = some p → Settled sources plan number p

/-- A plan goes over to one that is sound and has the same providers, and maybe more behind them. -/
structure Grows (sources : Sources) (stack : List String) (plan plan' : Plan) : Prop where
  sound : plan'.Sound sources stack
  providers : plan.providers <+: plan'.providers

variable {sources : Sources} {stack : List String} {plan plan' plan'' : Plan} {name : String}

theorem Grows.trans (h : Grows sources stack plan plan') (h' : Grows sources stack plan' plan'') :
    Grows sources stack plan plan'' := ⟨h'.sound, h.providers.trans h'.providers⟩

theorem sound_empty (sources : Sources) : empty.Sound sources [] where
  loading := by simp [empty]
  loaded := by simp [empty, Numbers]
  settled := by simp [empty]

/-- Opening the slot of a name puts it on the stack. -/
theorem Sound.fill (h : plan.Sound sources stack) (hn : plan.slots.lookup name = none) :
    (plan.fill name .loading).Sound sources (name :: stack) where
  loading := by
    intro other
    by_cases ho : other = name
    · subst ho
      simp
    · rw [lookup_fill_of_ne plan _ ho, h.loading other]
      simp [ho]
  loaded := by
    intro other number
    have same : (plan.fill name .loading).Numbers other number ↔ plan.Numbers other number := .rfl
    by_cases ho : other = name
    · subst ho
      have none : ¬ plan.Numbers other number := by
        intro hno
        rw [(h.loaded other number).mpr hno] at hn
        cases hn
      simp [same, none]
    · rw [lookup_fill_of_ne plan _ ho, same, h.loaded other number]
  settled := fun number p hp => (h.settled number p hp).mono List.prefix_rfl

/-- Filling the slot of the name on top of the stack takes it from the stack. -/
theorem Sound.add {p : Provider} (h : plan.Sound sources (p.name :: stack)) (hs : p.name ∉ stack)
    (hp : Settled sources plan plan.providers.length p) : (plan.add p).Sound sources stack where
  loading := by
    intro other
    rw [add_slots]
    by_cases ho : other = p.name
    · subst ho
      simp [hs]
    · rw [lookup_fill_of_ne plan _ ho, h.loading other]
      simp [ho]
  loaded := by
    intro other number
    rw [add_slots, numbers_add]
    by_cases ho : other = p.name
    · subst ho
      have none : ¬ plan.Numbers p.name number := by
        intro hno
        have hl := (h.loading p.name).mpr List.mem_cons_self
        rw [(h.loaded p.name number).mpr hno] at hl
        cases hl
      simp [none, eq_comm]
    · rw [lookup_fill_of_ne plan _ ho, h.loaded other number]
      simp [Ne.symm ho]
  settled := by
    have grows : plan.providers <+: (plan.add p).providers := List.prefix_append _ _
    intro number q hq
    rw [add_providers] at hq
    rcases Nat.lt_or_ge number plan.providers.length with hl | hl
    · rw [List.getElem?_append_left hl] at hq
      exact (h.settled number q hq).mono grows
    · obtain ⟨he, rfl⟩ : number = plan.providers.length ∧ p = q := by
        rw [List.getElem?_append_right hl, List.getElem?_singleton] at hq
        split at hq
        · next h0 => exact ⟨by omega, Option.some.inj hq⟩
        · cases hq
      subst he
      exact hp.mono grows

/-! ## When names are found -/

theorem checkMembers_func (name member : String) (type : Component.Signature)
    (before : List String) (rest : List (String × Component.ExternType)) :
    checkMembers name before ((member, .func type) :: rest) =
      if before.contains member then .error (.linkedTwice s!"{name}#{member}")
      else checkMembers name (member :: before) rest := by
  rw [checkMembers]

theorem checkMembers_of_ne (name member : String) {t : Component.ExternType}
    (ht : ∀ type, t ≠ .func type) (before : List String)
    (rest : List (String × Component.ExternType)) :
    checkMembers name before ((member, t) :: rest) =
      .error (.unsupportedImport s!"{name}#{member}") := by
  cases t with
  | func type => exact absurd rfl (ht type)
  | interface | module | component | type => rfl

theorem linkImports_of_ne (number : Plan → String → Plan × Except LinkError Nat) (plan : Plan)
    (links : List (String × Nat)) (import' : String) {t : Component.ExternType}
    (ht : ∀ members, t ≠ .interface members) (rest : List (String × Component.ExternType)) :
    linkImports number plan links ((import', t) :: rest) =
      (plan, .error (.unsupportedImport import')) := by
  cases t with
  | interface members => exact absurd rfl (ht members)
  | func | module | component | type => rfl

theorem checkMembers_ok {import' : String} {before : List String}
    {members : List (String × Component.ExternType)}
    (h : checkMembers import' before members = .ok ()) : ∀ m ∈ members, ∃ type, m.2 = .func type := by
  induction members generalizing before with
  | nil => simp
  | cons m rest ih =>
    obtain ⟨member, t⟩ := m
    by_cases ht : ∃ type, t = .func type
    · obtain ⟨type, rfl⟩ := ht
      rw [checkMembers_func] at h
      split at h
      · cases h
      · intro m hm
        rcases List.mem_cons.mp hm with rfl | hm
        · exact ⟨type, rfl⟩
        · exact ih h m hm
    · rw [checkMembers_of_ne import' member (not_exists.mp ht)] at h
      cases h

/-- A way of getting numbers for names keeps plans sound, and the numbers are right. -/
def FindsNumbers (sources : Sources) (stack : List String)
    (number : Plan → String → Plan × Except LinkError Nat) : Prop :=
  ∀ plan plan' name n, plan.Sound sources stack → number plan name = (plan', .ok n) →
    Grows sources stack plan plan' ∧ plan'.Numbers name n

theorem linkImports_ok {number : Plan → String → Plan × Except LinkError Nat}
    (finds : FindsNumbers sources stack number) {imports : List (String × Component.ExternType)}
    {links links' : List (String × Nat)} (sound : plan.Sound sources stack)
    (hl : ∀ l ∈ links, plan.Numbers l.1 l.2)
    (h : linkImports number plan links imports = (plan', .ok links')) :
    Grows sources stack plan plan' ∧
      links'.map Prod.fst = links.map Prod.fst ++ imports.map Prod.fst ∧
      (∀ l ∈ links', plan'.Numbers l.1 l.2) ∧ ∀ i ∈ imports, i.2.OfFunctions := by
  induction imports generalizing plan links with
  | nil =>
    cases h
    exact ⟨⟨sound, List.prefix_rfl⟩, by simp, hl, by simp⟩
  | cons i rest ih =>
    obtain ⟨import', t⟩ := i
    by_cases ht : ∃ members, t = .interface members
    · obtain ⟨members, rfl⟩ := ht
      rw [linkImports] at h
      split at h
      · cases h
      · next middle n hn =>
        obtain ⟨grows, found⟩ := finds _ _ _ _ sound hn
        split at h
        · cases h
        · split at h
          · cases h
          · next hm =>
            have before : ∀ l ∈ links ++ [(import', n)], middle.Numbers l.1 l.2 := by
              intro l hmem
              rcases List.mem_append.mp hmem with hmem | hmem
              · exact (hl l hmem).mono grows.providers
              · rw [List.mem_singleton.mp hmem]
                exact found
            obtain ⟨grows', names, numbers, functions⟩ := ih grows.sound before h
            refine ⟨grows.trans grows', by simpa using names, numbers, ?_⟩
            intro i hi
            rcases List.mem_cons.mp hi with rfl | hi
            · exact ⟨members, rfl, checkMembers_ok hm⟩
            · exact functions i hi
    · rw [linkImports_of_ne number plan links import' (not_exists.mp ht)] at h
      cases h

theorem resolve_ok (depth : Nat) (stack : List String) :
    FindsNumbers sources stack (resolve sources depth) := by
  induction depth generalizing stack with
  | zero =>
    intro plan plan' name n _ h
    cases h
  | succ depth ih =>
    intro plan plan' name n sound h
    rw [resolve] at h
    split at h
    · next number hs =>
      cases h
      exact ⟨⟨sound, List.prefix_rfl⟩, (sound.loaded name n).mp hs⟩
    · cases h
    · next hs =>
      have hns : name ∉ stack := by
        intro hm
        rw [(sound.loading name).mpr hm] at hs
        cases hs
      dsimp only at h
      split at h
      · cases h
      · next c hc =>
        split at h
        · cases h
        · next middle links hl =>
          cases h
          obtain ⟨hp, he⟩ := (Sources.provider_eq_ok_iff name c).mp hc
          obtain ⟨grows, names, numbers, functions⟩ :=
            linkImports_ok (ih (name :: stack)) (sound.fill hs) (by simp) hl
          have settled : Settled sources middle middle.providers.length ⟨name, c, links⟩ :=
            { provides := hp
              exported := he
              functions := functions
              names := by simpa [Component.importNames] using names
              links := fun l hm => ⟨(numbers l hm).lt, numbers l hm⟩ }
          refine ⟨⟨grows.sound.add hns settled, ?_⟩, ?_⟩
          · exact grows.providers.trans (List.prefix_append _ _)
          · exact (numbers_add _ _ _ _).mpr (.inr ⟨rfl, rfl⟩)

/-! ## A script whose imports are linked -/

variable {script : Component}

/-- What follows when all imports of a script have numbers. -/
structure Complete (sources : Sources) (script : Component) (plan : Plan)
    (links : List (String × Nat)) : Prop where
  sound : plan.Sound sources []
  names : links.map Prod.fst = script.importNames
  numbers : ∀ l ∈ links, plan.Numbers l.1 l.2
  functions : script.ImportsFunctions

theorem ofScript_ok {links : List (String × Nat)}
    (h : ofScript sources script = (plan, .ok links)) : Complete sources script plan links := by
  obtain ⟨grows, names, numbers, functions⟩ :=
    linkImports_ok (resolve_ok _ []) (sound_empty sources) (by simp) h
  exact ⟨grows.sound, by simpa [Component.importNames] using names, numbers, functions⟩

theorem Sound.unique (sound : plan.Sound sources stack) {n k : Nat} (hn : plan.Numbers name n)
    (hk : plan.Numbers name k) : n = k := by
  have h := (sound.loaded name n).mpr hn
  rw [(sound.loaded name k).mpr hk] at h
  exact (Slot.loaded.inj (Option.some.inj h)).symm

theorem Sound.imports (sound : plan.Sound sources stack) {n : Nat} {import' : String}
    (hn : plan.Numbers name n) (hi : sources.Imports name import') :
    ∃ k < n, plan.Numbers import' k := by
  obtain ⟨p, hp, rfl⟩ := hn
  obtain ⟨c, hc, hm⟩ := hi
  have settled := sound.settled n p hp
  rw [hc.unique settled.provides, ← settled.names] at hm
  obtain ⟨l, hl, rfl⟩ := List.mem_map.mp hm
  obtain ⟨hlt, hnum⟩ := settled.links l hl
  exact ⟨l.2, hlt, hnum⟩

theorem Sound.transGen (sound : plan.Sound sources stack) {n : Nat} {other : String}
    (hn : plan.Numbers name n) (ht : Relation.TransGen sources.Imports name other) :
    ∃ k < n, plan.Numbers other k := by
  induction ht with
  | single hi => exact sound.imports hn hi
  | tail _ hi ih =>
    obtain ⟨k, hk, hnum⟩ := ih
    obtain ⟨j, hj, hnum'⟩ := sound.imports hnum hi
    exact ⟨j, Nat.lt_trans hj hk, hnum'⟩

theorem Complete.numbers_of_reaches {links : List (String × Nat)}
    (complete : Complete sources script plan links) (h : sources.Reaches script name) :
    ∃ n, plan.Numbers name n := by
  refine Sources.Reaches.induction (P := fun name => ∃ n, plan.Numbers name n) ?_ ?_ h
  · intro root hr
    rw [← complete.names] at hr
    obtain ⟨l, hl, rfl⟩ := List.mem_map.mp hr
    exact ⟨l.2, complete.numbers l hl⟩
  · rintro importer import' ⟨n, hn⟩ hi
    obtain ⟨k, -, hk⟩ := complete.sound.imports hn hi
    exact ⟨k, hk⟩

theorem Complete.resolvable {links : List (String × Nat)}
    (complete : Complete sources script plan links) : sources.Resolvable script where
  provided := by
    intro name h
    obtain ⟨n, p, hp, rfl⟩ := complete.numbers_of_reaches h
    have settled := complete.sound.settled n p hp
    exact ⟨p.component, settled.provides, settled.exported⟩
  functions := by
    rintro c (rfl | ⟨name, hr, hc⟩)
    · exact complete.functions
    · obtain ⟨n, p, hp, rfl⟩ := complete.numbers_of_reaches hr
      have settled := complete.sound.settled n p hp
      rw [hc.unique settled.provides]
      exact settled.functions
  acyclic := by
    intro name hr hc
    obtain ⟨n, hn⟩ := complete.numbers_of_reaches hr
    obtain ⟨k, hk, hn'⟩ := complete.sound.transGen hn hc
    have := complete.sound.unique hn hn'
    omega

end ComponentHost.Plan
