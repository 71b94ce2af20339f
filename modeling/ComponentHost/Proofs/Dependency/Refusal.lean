import ComponentHost.Proofs.Dependency.Plan
import Mathlib.Data.List.Perm.Subperm

/-! # Why a plan fails

Each error that ends the making of a plan names something that is wrong with the configuration: a name
that is not provided, an import that is no instance of functions, a name that comes twice, or a cycle.
The stack of open names never grows beyond the names there are, so only a name that comes back to itself is
reported as a cycle. -/
set_option autoImplicit false

namespace ComponentHost

open Relation

/-- What is wrong with a configuration, for each error. -/
inductive Sources.Refuses (sources : Sources) (script : Component) : LinkError → Prop where
  | unresolved (name : String) :
      sources.Reaches script name → (∀ path, ¬ sources.Lists name path) →
      (∀ r ∈ sources.references, r.exports name = false) → Refuses sources script (.unresolved name)
  | cycle (name : String) :
      sources.Reaches script name → TransGen sources.Imports name name →
      Refuses sources script (.cycle name)
  | missingExport (name : String) (c : Component) :
      sources.Reaches script name → sources.Provides name c → name ∉ c.exportNames →
      Refuses sources script (.missingExport name)
  | invalidDependency (name : String) (path : Path) (fault : Component.Fault) :
      sources.Reaches script name → sources.Lists name path →
      Component.load sources.fs path = .error fault →
      Refuses sources script (.invalidDependency path fault)
  | unsupportedImport (what : String) (c : Component) :
      sources.OnTheWay script c → ¬ c.ImportsFunctions →
      Refuses sources script (.unsupportedImport what)
  | linkedTwice (what : String) (c : Component) :
      sources.OnTheWay script c → ¬ c.DistinctNames → Refuses sources script (.linkedTwice what)

namespace Plan

variable {sources : Sources} {script : Component}

theorem provider_error {name : String} {e : LinkError} (hr : sources.Reaches script name)
    (h : sources.provider name = .error e) : sources.Refuses script e := by
  unfold Sources.provider at h
  split at h
  · next e' hl =>
    cases h
    unfold Sources.locate at hl
    split at hl
    · next path hp =>
      rw [Sources.resolve?_eq_some_iff] at hp
      cases hc : Component.load sources.fs path with
      | error fault =>
        rw [hc] at hl
        cases hl
        exact .invalidDependency name path fault hr hp hc
      | ok c =>
        rw [hc] at hl
        cases hl
    · next hn =>
      rw [Sources.resolve?_eq_none_iff] at hn
      split at hl
      · cases hl
      · next hf =>
        cases hl
        exact .unresolved name hr hn (by simpa using hf)
  · next c hl =>
    split at h
    · cases h
    · next he =>
      cases h
      exact .missingExport name c hr ((Sources.locate_eq_ok_iff name c).mp hl) (by simpa using he)

/-! ## Members and imports -/

theorem checkMembers_error {import' : String} {before : List String}
    {members : List (String × Component.ExternType)} {e : LinkError}
    (h : checkMembers import' before members = .error e) :
    (∃ what, e = .unsupportedImport what) ∧ ¬ (∀ m ∈ members, ∃ type, m.2 = .func type) ∨
      (∃ what, e = .linkedTwice what) ∧
        ((members.map Prod.fst).Nodup → ∃ m ∈ members, m.1 ∈ before) := by
  induction members generalizing before with
  | nil => cases h
  | cons m rest ih =>
    obtain ⟨member, t⟩ := m
    by_cases ht : ∃ type, t = .func type
    · obtain ⟨type, rfl⟩ := ht
      rw [checkMembers_func] at h
      split at h
      · next hb =>
        cases h
        exact .inr ⟨⟨_, rfl⟩, fun _ => ⟨_, List.mem_cons_self, by simpa using hb⟩⟩
      · rcases ih h with ⟨he, hf⟩ | ⟨he, hd⟩
        · exact .inl ⟨he, fun all => hf fun m hm => all m (List.mem_cons_of_mem _ hm)⟩
        · refine .inr ⟨he, fun nodup => ?_⟩
          rw [List.map_cons, List.nodup_cons] at nodup
          obtain ⟨m, hm, hb⟩ := hd nodup.2
          refine ⟨m, List.mem_cons_of_mem _ hm, (List.mem_cons.mp hb).resolve_left ?_⟩
          intro he
          exact nodup.1 (List.mem_map.mpr ⟨m, hm, he⟩)
    · rw [checkMembers_of_ne import' member (not_exists.mp ht)] at h
      cases h
      exact .inl ⟨⟨_, rfl⟩, fun all => ht (all _ List.mem_cons_self)⟩

/-- The imports of a component are refused for what is wrong with the configuration, if they are, given
that this is so for each of its names. -/
theorem linkImports_error {stack : List String} {c : Component}
    {number : Plan → String → Plan × Except LinkError Nat}
    (finds : FindsNumbers sources stack number) (way : sources.OnTheWay script c)
    (refuses : ∀ plan plan' name e, plan.Sound sources stack → name ∈ c.importNames →
      number plan name = (plan', .error e) → sources.Refuses script e)
    {imports : List (String × Component.ExternType)} (done : List (String × Component.ExternType))
    {plan plan' : Plan} {links : List (String × Nat)} {e : LinkError} (sound : plan.Sound sources stack)
    (hi : c.imports = done ++ imports) (hl : links.map Prod.fst = done.map Prod.fst)
    (h : linkImports number plan links imports = (plan', .error e)) : sources.Refuses script e := by
  induction imports generalizing done plan links with
  | nil => cases h
  | cons i rest ih =>
    obtain ⟨import', t⟩ := i
    have hmem : (import', t) ∈ c.imports := by simp [hi]
    by_cases ht : ∃ members, t = .interface members
    · obtain ⟨members, rfl⟩ := ht
      rw [linkImports] at h
      split at h
      · next middle e' hn =>
        cases h
        exact refuses _ _ _ _ sound (List.mem_map_of_mem hmem) hn
      · next middle n hn =>
        have sound' := (finds _ _ _ _ sound hn).1.sound
        split at h
        · next hb =>
          cases h
          refine .linkedTwice _ c way fun distinct => ?_
          have before : import' ∈ done.map Prod.fst := by
            rw [← hl]
            simpa using hb
          have nodup := distinct.imports
          rw [Component.importNames, hi, List.map_append, List.nodup_append] at nodup
          exact nodup.2.2 _ before _ List.mem_cons_self rfl
        · split at h
          · next e' hm =>
            cases h
            rcases checkMembers_error hm with ⟨⟨what, rfl⟩, hf⟩ | ⟨⟨what, rfl⟩, hd⟩
            · refine .unsupportedImport what c way fun functions => hf ?_
              obtain ⟨members', he, all⟩ := functions _ hmem
              cases he
              exact all
            · refine .linkedTwice what c way fun distinct => ?_
              obtain ⟨m, -, hb⟩ := hd (distinct.members _ hmem members rfl)
              cases hb
          · exact ih (done ++ [(import', .interface members)]) sound' (by simp [hi]) (by simp [hl]) h
    · rw [linkImports_of_ne number plan links import' (not_exists.mp ht)] at h
      cases h
      refine .unsupportedImport _ c way fun functions => ht ?_
      obtain ⟨members, he, -⟩ := functions _ hmem
      exact ⟨members, he⟩

/-! ## Names -/

/-- The names whose providers are being looked at: each is reached, and none is open twice. -/
structure Open (sources : Sources) (script : Component) (stack : List String) : Prop where
  nodup : stack.Nodup
  reaches : ∀ name ∈ stack, sources.Reaches script name

theorem Open.length_le {stack : List String} (h : Open sources script stack) :
    stack.length ≤ (sources.names script).length :=
  (List.subperm_of_subset h.nodup fun name hn => (h.reaches name hn).mem_names).length_le

theorem resolve_error {e : LinkError} (depth : Nat) (stack : List String) (plan plan' : Plan)
    (name : String) (sound : plan.Sound sources stack) (hopen : Open sources script stack)
    (hr : sources.Reaches script name)
    (path : ∀ importer ∈ stack, TransGen sources.Imports importer name)
    (room : (sources.names script).length < depth + stack.length)
    (h : resolve sources depth plan name = (plan', .error e)) : sources.Refuses script e := by
  induction depth generalizing stack plan plan' name e with
  | zero =>
    have := hopen.length_le
    omega
  | succ depth ih =>
    rw [resolve] at h
    split at h
    · cases h
    · next hs =>
      cases h
      exact .cycle name hr (path name ((sound.loading name).mp hs))
    · next hs =>
      have hns : name ∉ stack := by
        intro hm
        rw [(sound.loading name).mpr hm] at hs
        cases hs
      dsimp only at h
      split at h
      · next e' hp =>
        cases h
        exact provider_error hr hp
      · next c hc =>
        obtain ⟨hp, -⟩ := (Sources.provider_eq_ok_iff name c).mp hc
        split at h
        · next middle e' hl =>
          cases h
          have inner : Open sources script (name :: stack) :=
            ⟨List.nodup_cons.mpr ⟨hns, hopen.nodup⟩, by simpa [hr] using hopen.reaches⟩
          refine linkImports_error (resolve_ok depth _) (.inr ⟨name, hr, hp⟩) ?_ [] (sound.fill hs)
            rfl rfl hl
          intro plan plan' import' e sound' hi h'
          have edge : sources.Imports name import' := ⟨c, hp, hi⟩
          refine ih (name :: stack) plan plan' import' sound' inner (hr.imports edge) ?_ ?_ h'
          · intro importer hm
            rcases List.mem_cons.mp hm with rfl | hm
            · exact .single edge
            · exact (path importer hm).tail edge
          · rw [List.length_cons]
            omega
        · cases h

/-- A plan for a script fails only for what is wrong with the configuration. -/
theorem ofScript_error {plan : Plan} {e : LinkError}
    (h : ofScript sources script = (plan, .error e)) : sources.Refuses script e := by
  refine linkImports_error (resolve_ok _ []) (.inl rfl) ?_ [] (sound_empty sources) rfl rfl h
  intro plan plan' name e sound hn h'
  exact resolve_error _ [] plan plan' name sound ⟨List.nodup_nil, by simp⟩ (.of_mem hn) (by simp)
    (by simp) h'

end Plan

/-- Nothing is wrong with a resolvable script, apart from names that come twice. -/
theorem Sources.Resolvable.not_refuses {sources : Sources} {script : Component} {e : LinkError}
    (h : sources.Resolvable script) (distinct : ∀ c, sources.OnTheWay script c → c.DistinctNames) :
    ¬ sources.Refuses script e := by
  intro hr
  cases hr with
  | unresolved name hr hl he =>
    obtain ⟨c, hc, -⟩ := h.provided name hr
    cases hc with
    | listed path _ hp _ => exact hl path hp
    | referenced r _ hf =>
      obtain ⟨before, after, hs, hx, -⟩ := hf
      rw [he r (by simp [hs])] at hx
      cases hx
  | cycle name hr hc => exact h.acyclic name hr hc
  | missingExport name c hr hc he =>
    obtain ⟨c', hc', he'⟩ := h.provided name hr
    exact he (hc.unique hc' ▸ he')
  | invalidDependency name path fault hr hl hf =>
    obtain ⟨c, hc, -⟩ := h.provided name hr
    cases hc with
    | listed path' _ hl' hc =>
      rw [hl'.unique hl, hf] at hc
      cases hc
    | referenced r hn _ => exact hn path hl
  | unsupportedImport what c hw hf => exact hf (h.functions c hw)
  | linkedTwice what c hw hd => exact hd (distinct c hw)

end ComponentHost
