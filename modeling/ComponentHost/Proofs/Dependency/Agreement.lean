import ComponentHost.Proofs.Dependency.Instances
import ComponentHost.Proofs.Dependency.Resolution

/-! # Sources that agree

What linking comes to is decided by the providers of the names that a script reaches. Sources that give
these names the same components give the script the same plan, and with it the same instances and links,
whatever else they hold. -/
set_option autoImplicit false

namespace ComponentHost

open Relation

/-! ## Where providers come from -/

/-- The place that a component comes from: a file that the manifest lists, or a reference. -/
inductive Origin where
  | listed (path : Path)
  | referenced (path : Path)
  deriving DecidableEq

namespace Sources

/-- The origin of the component for a name. -/
inductive ComesFrom (sources : Sources) (name : String) : Origin → Prop where
  | listed {path : Path} (h : sources.Lists name path) : ComesFrom sources name (.listed path)
  | referenced {r : LoadedReference} (hn : ∀ path, ¬ sources.Lists name path)
      (hr : sources.FirstExporting name r) : ComesFrom sources name (.referenced r.path)

variable {sources sources' : Sources} {script : Component} {name : String} {origin : Origin}

theorem FirstExporting.unique {r r' : LoadedReference} (h : sources.FirstExporting name r)
    (h' : sources.FirstExporting name r') : r = r' := by
  rw [← find?_eq_some_iff] at h h'
  exact Option.some.inj (h.symm.trans h')

theorem FirstExporting.mem {r : LoadedReference} (h : sources.FirstExporting name r) :
    r ∈ sources.references := by
  obtain ⟨before, after, hs, -, -⟩ := h
  rw [hs]
  exact List.mem_append_right _ List.mem_cons_self

theorem FirstExporting.exports {r : LoadedReference} (h : sources.FirstExporting name r) :
    r.exports name = true := by
  obtain ⟨before, after, -, hr, -⟩ := h
  exact hr

/-- Whatever is provided comes from somewhere. -/
theorem Provides.comesFrom {c : Component} (h : sources.Provides name c) :
    ∃ origin, sources.ComesFrom name origin := by
  cases h with
  | listed path _ hl _ => exact ⟨_, .listed hl⟩
  | referenced r hn hr => exact ⟨_, .referenced hn hr⟩

theorem ComesFrom.unique {origin' : Origin} (h : sources.ComesFrom name origin)
    (h' : sources.ComesFrom name origin') : origin = origin' := by
  cases h with
  | listed hl =>
    cases h' with
    | listed hl' => rw [hl.unique hl']
    | referenced hn _ => exact absurd hl (hn _)
  | referenced hn hr =>
    cases h' with
    | listed hl => exact absurd hl (hn _)
    | referenced _ hr' => rw [hr.unique hr']

/-- Every name that a script reaches in the first sources has its component from the same place in both. -/
def SameOrigins (sources sources' : Sources) (script : Component) : Prop :=
  ∀ name, sources.Reaches script name →
    ∀ origin, sources'.ComesFrom name origin ↔ sources.ComesFrom name origin

/-! ## Leaving references out -/

/-- The sources without the references at some paths. -/
def keep (sources : Sources) (kept : Path → Bool) : Sources :=
  { sources with references := sources.references.filter fun r => kept r.path }

/-- A reference that is kept is still the first to export a name. -/
theorem FirstExporting.keep {r : LoadedReference} (h : sources.FirstExporting name r)
    {kept : Path → Bool} (hk : kept r.path = true) : (sources.keep kept).FirstExporting name r := by
  obtain ⟨before, after, hs, hr, hb⟩ := h
  refine ⟨before.filter fun q => kept q.path, after.filter fun q => kept q.path, ?_, hr,
    fun q hq => hb q (List.mem_filter.mp hq).1⟩
  simp [Sources.keep, hs, hk]

theorem ComesFrom.keep (h : sources.ComesFrom name origin) {kept : Path → Bool}
    (hk : ∀ path, origin = .referenced path → kept path = true) :
    (sources.keep kept).ComesFrom name origin := by
  cases h with
  | listed hl => exact .listed hl
  | referenced hn hr => exact .referenced hn (hr.keep (hk _ rfl))

theorem Provides.keep {c : Component} (h : sources.Provides name c) {kept : Path → Bool}
    (hk : ∀ path, sources.ComesFrom name (.referenced path) → kept path = true) :
    (sources.keep kept).Provides name c := by
  cases h with
  | listed path _ hl hc => exact .listed path c hl hc
  | referenced r hn hr => exact .referenced r hn (hr.keep (hk _ (.referenced hn hr)))

/-! ## Agreeing on what is reached -/

/-- Two sources have the same component for every name that a script reaches in the first. -/
def Agree (sources sources' : Sources) (script : Component) : Prop :=
  ∀ name, sources.Reaches script name → sources'.provider name = sources.provider name

/-- All references that provide what a script reaches are kept. -/
def Spares (sources : Sources) (script : Component) (kept : Path → Bool) : Prop :=
  ∀ name, sources.Reaches script name → ∀ path, sources.ComesFrom name (.referenced path) →
    kept path = true

theorem Spares.sameOrigins {kept : Path → Bool} (hk : sources.Spares script kept)
    (hr : sources.Resolvable script) : sources.SameOrigins (sources.keep kept) script := by
  intro name hn origin
  obtain ⟨c, hp, -⟩ := hr.provided name hn
  obtain ⟨origin', ho⟩ := hp.comesFrom
  have hkept : (sources.keep kept).ComesFrom name origin' := by
    refine ho.keep fun path he => hk name hn path ?_
    rw [← he]
    exact ho
  constructor
  · intro h
    cases h.unique hkept
    exact ho
  · intro h
    cases h.unique ho
    exact hkept

/-- Where all references are kept that provide what is reached, nothing changes for the script. -/
theorem Spares.agree {kept : Path → Bool} (hk : sources.Spares script kept)
    (hr : sources.Resolvable script) : sources.Agree (sources.keep kept) script := by
  intro name hn
  obtain ⟨c, hp, he⟩ := hr.provided name hn
  rw [(provider_eq_ok_iff name c).mpr ⟨hp, he⟩,
    (provider_eq_ok_iff name c).mpr ⟨hp.keep (hk name hn), he⟩]

theorem Agree.provides (h : sources.Agree sources' script) (hr : sources.Resolvable script)
    (hn : sources.Reaches script name) {c : Component} :
    sources'.Provides name c ↔ sources.Provides name c := by
  obtain ⟨c', hp, he⟩ := hr.provided name hn
  have hp' := (provider_eq_ok_iff name c').mpr ⟨hp, he⟩
  rw [← h name hn] at hp'
  have hp' := ((provider_eq_ok_iff name c').mp hp').1
  constructor
  · intro hc
    cases hc.unique hp'
    exact hp
  · intro hc
    cases hc.unique hp
    exact hp'

/-- Sources that agree on what a script reaches lead from a name that it reaches to the same imports. -/
theorem Agree.imports (h : sources.Agree sources' script) (hr : sources.Resolvable script)
    (hn : sources.Reaches script name) {import' : String} :
    sources'.Imports name import' ↔ sources.Imports name import' :=
  exists_congr fun _ => and_congr_left' (h.provides hr hn)

theorem Agree.reaches (h : sources.Agree sources' script) (hr : sources.Resolvable script) :
    sources'.Reaches script name ↔ sources.Reaches script name := by
  constructor
  · exact Reaches.induction (fun _ => .of_mem) fun _ _ hn hi => hn.imports ((h.imports hr hn).mp hi)
  · intro hn
    refine (hn.induction (P := fun name => sources.Reaches script name ∧ sources'.Reaches script name)
      (fun _ hm => ⟨.of_mem hm, .of_mem hm⟩) ?_).2
    rintro _ _ ⟨hn, hn'⟩ hi
    exact ⟨hn.imports hi, hn'.imports ((h.imports hr hn).mpr hi)⟩

/-- What is resolvable stays so in sources that agree on it. -/
theorem Agree.resolvable (h : sources.Agree sources' script) (hr : sources.Resolvable script) :
    sources'.Resolvable script where
  provided := fun name hn => by
    have hn := (h.reaches hr).mp hn
    obtain ⟨c, hp, he⟩ := hr.provided name hn
    exact ⟨c, (h.provides hr hn).mpr hp, he⟩
  functions := by
    rintro c (rfl | ⟨name, hn, hc⟩)
    · exact hr.functions c (.inl rfl)
    · have hn := (h.reaches hr).mp hn
      exact hr.functions c (.inr ⟨name, hn, (h.provides hr hn).mp hc⟩)
  acyclic := fun name hn hcycle => by
    have hn := (h.reaches hr).mp hn
    refine hr.acyclic name hn ?_
    -- every name on the way is reached, so every edge is one of the first sources
    have hway : ∀ other, TransGen sources'.Imports name other →
        TransGen sources.Imports name other ∧ sources.Reaches script other := by
      intro other hw
      induction hw with
      | single hi =>
        have hi := (h.imports hr hn).mp hi
        exact ⟨.single hi, hn.imports hi⟩
      | tail _ hi ih =>
        have hi := (h.imports hr ih.2).mp hi
        exact ⟨ih.1.tail hi, ih.2.imports hi⟩
    exact (hway name hcycle).1

end Sources

/-! ## The same plan -/

namespace Plan

variable {sources sources' : Sources} {script : Component}

/-- Two ways to number names that come to the same wherever both have a number for a name. -/
def NumbersAlike (P : String → Prop) (number number' : Plan → String → Plan × Except LinkError Nat) :
    Prop :=
  ∀ plan name, P name → ∀ found found' n n', number plan name = (found, .ok n) →
    number' plan name = (found', .ok n') → found' = found ∧ n' = n

theorem linkImports_alike {P : String → Prop}
    {number number' : Plan → String → Plan × Except LinkError Nat}
    (hn : NumbersAlike P number number') {imports : List (String × Component.ExternType)}
    (hi : ∀ i ∈ imports, P i.1) {plan found found' : Plan} {links left left' : List (String × Nat)}
    (h : linkImports number plan links imports = (found, .ok left))
    (h' : linkImports number' plan links imports = (found', .ok left')) :
    found' = found ∧ left' = left := by
  induction imports generalizing plan links with
  | nil =>
    cases h
    cases h'
    exact ⟨rfl, rfl⟩
  | cons i rest ih =>
    obtain ⟨name, t⟩ := i
    obtain ⟨hname, hrest⟩ := List.forall_mem_cons.mp hi
    cases t with
    | func | module | component | type => cases h
    | interface members =>
      unfold linkImports at h h'
      split at h
      · cases h
      · next plan₁ n₁ hn₁ =>
        split at h'
        · cases h'
        · next plan₂ n₂ hn₂ =>
          obtain ⟨rfl, rfl⟩ := hn plan name hname _ _ _ _ hn₁ hn₂
          split at h
          · cases h
          · next hlinked =>
            rw [if_neg hlinked] at h'
            split at h
            · cases h
            · next hmembers =>
              rw [hmembers] at h'
              exact ih hrest h h'

/-- How deep imports may be nested does not matter where it is deep enough. -/
theorem resolve_alike (ha : sources.Agree sources' script) (depth depth' : Nat) :
    NumbersAlike (sources.Reaches script) (resolve sources depth) (resolve sources' depth') := by
  induction depth generalizing depth' with
  | zero =>
    intro plan name _ found found' n n' h
    cases h
  | succ depth ih =>
    intro plan name hr found found' n n' h h'
    cases depth' with
    | zero => cases h'
    | succ depth' =>
      unfold resolve at h h'
      split at h
      · next hs =>
        rw [hs] at h'
        cases h
        cases h'
        exact ⟨rfl, rfl⟩
      · cases h
      · next hs =>
        rw [hs] at h'
        dsimp only at h h'
        rw [ha name hr] at h'
        cases hp : sources.provider name with
        | error e =>
          rw [hp] at h
          cases h
        | ok c =>
          rw [hp] at h h'
          dsimp only at h h'
          have hc := ((Sources.provider_eq_ok_iff name c).mp hp).1
          have himports : ∀ i ∈ c.imports, sources.Reaches script i.1 := fun i hi =>
            hr.imports ⟨c, hc, List.mem_map_of_mem hi⟩
          split at h
          · cases h
          · next plan₁ links₁ hl₁ =>
            split at h'
            · cases h'
            · next plan₂ links₂ hl₂ =>
              obtain ⟨rfl, rfl⟩ := linkImports_alike (ih depth') himports hl₁ hl₂
              cases h
              cases h'
              exact ⟨rfl, rfl⟩

/-- Sources that agree on what a script reaches have the same plan for it. -/
theorem ofScript_agree (ha : sources.Agree sources' script) (hc : sources'.Compiled script)
    {plan : Plan} {links : List (String × Nat)}
    (h : ofScript sources script = (plan, .ok links)) : ofScript sources' script = (plan, .ok links) := by
  have hr := (ofScript_ok h).resolvable
  obtain ⟨plan', links', h'⟩ := Linked.exists_plan hc (ha.resolvable hr)
  have himports : ∀ i ∈ script.imports, sources.Reaches script i.1 := fun i hi =>
    .of_mem (List.mem_map_of_mem hi)
  obtain ⟨rfl, rfl⟩ := linkImports_alike (resolve_alike ha _ _) himports h h'
  exact h'

end Plan

/-- Sources that agree on what a script reaches link it alike. -/
theorem Linked.link_agree {fuel : Nat} {sources sources' : Sources} {maxMemoryBytes : Option Nat}
    {script : Component} {linked : Linked} (ha : sources.Agree sources' script)
    (hc : sources'.Compiled script) (h : link fuel sources maxMemoryBytes script = .ok (.ok linked)) :
    link fuel sources' maxMemoryBytes script = .ok (.ok linked) := by
  obtain ⟨plan, hp, hi, rfl⟩ := link_ok h
  rw [link, Plan.ofScript_agree ha hc hp]
  dsimp only
  rw [hi]
  rfl

end ComponentHost
