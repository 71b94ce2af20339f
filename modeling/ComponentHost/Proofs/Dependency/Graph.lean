import ComponentHost.Dependency.Link
import ComponentHost.Proofs.Component.Names
import Mathlib.Logic.Relation
import Mathlib.Data.List.Nodup

/-! # The graph of import names

What a configuration says about import names, without any order of looking them up. Every name has at
most one provider, and an edge leads from a name to every import name of its provider. A script is
resolvable when everything that can be reached from its imports is provided and no name leads back to
itself. -/
set_option autoImplicit false

namespace ComponentHost

open Relation

namespace Component

/-- The type of an instance that is made only of functions. -/
def ExternType.OfFunctions (t : ExternType) : Prop :=
  ∃ members, t = .interface members ∧ ∀ m ∈ members, ∃ type, m.2 = .func type

def ImportsFunctions (c : Component) : Prop := ∀ i ∈ c.imports, i.2.OfFunctions

end Component

namespace Sources

/-- The manifest lists a path of a file under a name. -/
def Lists (sources : Sources) (name : String) (path : Path) : Prop :=
  ∃ text, sources.manifest.listing.get? name = some text ∧
    path = sources.manifest.baseDir.join ⟨text⟩ ∧ sources.fs.isFile path = true

/-- A reference is the first that exports a name. -/
def FirstExporting (sources : Sources) (name : String) (r : LoadedReference) : Prop :=
  ∃ before after, sources.references = before ++ r :: after ∧ r.exports name = true ∧
    ∀ q ∈ before, q.exports name = false

/-- The component for a name: that of the file that the manifest lists, or, when it lists none, that of
the first reference that exports the name. -/
inductive Provides (sources : Sources) (name : String) : Component → Prop where
  | listed (path : Path) (c : Component) :
      sources.Lists name path → Component.load sources.fs path = .ok c → Provides sources name c
  | referenced (r : LoadedReference) :
      (∀ path, ¬ sources.Lists name path) → sources.FirstExporting name r →
      Provides sources name r.component

/-- The provider of the first name imports the second. -/
def Imports (sources : Sources) (name import' : String) : Prop :=
  ∃ c, sources.Provides name c ∧ import' ∈ c.importNames

/-- The imports of a script lead to a name. -/
def Reaches (sources : Sources) (script : Component) (name : String) : Prop :=
  ∃ root ∈ script.importNames, ReflTransGen sources.Imports root name

/-- A component is the script or provides a name that the script reaches. -/
def OnTheWay (sources : Sources) (script c : Component) : Prop :=
  c = script ∨ ∃ name, sources.Reaches script name ∧ sources.Provides name c

/-- Everything that a script reaches is there, can be linked, and does not lead back to itself. -/
structure Resolvable (sources : Sources) (script : Component) : Prop where
  provided : ∀ name, sources.Reaches script name →
    ∃ c, sources.Provides name c ∧ name ∈ c.exportNames
  functions : ∀ c, sources.OnTheWay script c → c.ImportsFunctions
  acyclic : ∀ name, sources.Reaches script name → ¬ TransGen sources.Imports name name

variable {sources : Sources} {script : Component}

/-! ## Looking a name up -/

theorem resolve?_eq_some_iff (name : String) (path : Path) :
    sources.manifest.resolve? sources.fs name = some path ↔ sources.Lists name path := by
  unfold Manifest.resolve? Lists
  cases sources.manifest.listing.get? name with
  | none => simp
  | some text =>
    dsimp only
    split
    · next h =>
      simp only [Option.some.injEq]
      constructor
      · rintro rfl
        exact ⟨text, rfl, rfl, h⟩
      · rintro ⟨_, rfl, rfl, _⟩
        rfl
    · next h =>
      simp only [reduceCtorEq, false_iff]
      rintro ⟨_, ht, rfl, hp⟩
      exact h (Option.some.inj ht ▸ hp)

theorem resolve?_eq_none_iff (name : String) :
    sources.manifest.resolve? sources.fs name = none ↔ ∀ path, ¬ sources.Lists name path := by
  rw [Option.eq_none_iff_forall_ne_some]
  exact forall_congr' fun path => not_congr (resolve?_eq_some_iff name path)

theorem find?_eq_some_iff (name : String) (r : LoadedReference) :
    sources.references.find? (·.exports name) = some r ↔ sources.FirstExporting name r := by
  rw [List.find?_eq_some_iff_append]
  constructor
  · rintro ⟨hr, before, after, h, hb⟩
    exact ⟨before, after, h, hr, fun q hq => by simpa using hb q hq⟩
  · rintro ⟨before, after, h, hr, hb⟩
    exact ⟨hr, before, after, h, fun q hq => by simpa using hb q hq⟩

theorem Lists.unique {name : String} {path path' : Path} (h : sources.Lists name path)
    (h' : sources.Lists name path') : path = path' := by
  rw [← resolve?_eq_some_iff] at h h'
  rw [h] at h'
  exact Option.some.inj h'

theorem locate_eq_ok_iff (name : String) (c : Component) :
    sources.locate name = .ok c ↔ sources.Provides name c := by
  unfold locate
  cases hm : sources.manifest.resolve? sources.fs name with
  | some path =>
    have hl := (resolve?_eq_some_iff name path).mp hm
    constructor
    · intro h
      refine .listed path c hl ?_
      cases hc : Component.load sources.fs path with
      | error fault => simp [hc, Except.mapError] at h
      | ok c' => simpa [hc, Except.mapError] using h
    · rintro (⟨path', _, hl', hc⟩ | ⟨r, hn, _⟩)
      · rw [(resolve?_eq_some_iff name path').mpr hl'] at hm
        cases hm
        simp [hc, Except.mapError]
      · exact absurd hl (hn path)
  | none =>
    have hn := (resolve?_eq_none_iff name).mp hm
    cases hf : sources.references.find? (·.exports name) with
    | none =>
      simp only [reduceCtorEq, false_iff]
      rintro (⟨path, _, hl, _⟩ | ⟨r, _, hr⟩)
      · exact hn path hl
      · rw [(find?_eq_some_iff name r).mpr hr] at hf
        cases hf
    | some r =>
      have hr := (find?_eq_some_iff name r).mp hf
      simp only [Except.ok.injEq]
      constructor
      · rintro rfl
        exact .referenced r hn hr
      · rintro (⟨path, _, hl, _⟩ | ⟨r', _, hr'⟩)
        · exact absurd hl (hn path)
        · rw [(find?_eq_some_iff name r').mpr hr'] at hf
          cases hf
          rfl

theorem Provides.unique {name : String} {c c' : Component} (h : sources.Provides name c)
    (h' : sources.Provides name c') : c = c' := by
  rw [← locate_eq_ok_iff] at h h'
  rw [h] at h'
  exact Except.ok.inj h'

theorem provider_eq_ok_iff (name : String) (c : Component) :
    sources.provider name = .ok c ↔ sources.Provides name c ∧ name ∈ c.exportNames := by
  rw [← locate_eq_ok_iff]
  unfold provider
  cases sources.locate name with
  | error e => simp
  | ok c' =>
    dsimp only
    split
    · next h =>
      simp only [List.contains_eq_mem, decide_eq_true_eq] at h
      constructor
      · rintro ⟨⟩
        exact ⟨rfl, h⟩
      · rintro ⟨h', -⟩
        exact h'
    · next h =>
      simp only [List.contains_eq_mem, decide_eq_true_eq] at h
      simp only [reduceCtorEq, Except.ok.injEq, false_iff, not_and]
      rintro rfl
      exact h

/-! ## Reaching names -/

theorem Reaches.of_mem {name : String} (h : name ∈ script.importNames) :
    sources.Reaches script name := ⟨name, h, .refl⟩

theorem Reaches.imports {name import' : String} (h : sources.Reaches script name)
    (hi : sources.Imports name import') : sources.Reaches script import' := by
  obtain ⟨root, hr, hp⟩ := h
  exact ⟨root, hr, hp.tail hi⟩

/-- What holds of the script's imports and goes over to the imports of a provider holds of every name
that is reached. -/
theorem Reaches.induction {P : String → Prop} (root : ∀ name ∈ script.importNames, P name)
    (step : ∀ name import', P name → sources.Imports name import' → P import') {name : String}
    (h : sources.Reaches script name) : P name := by
  obtain ⟨r, hr, hp⟩ := h
  induction hp with
  | refl => exact root r hr
  | tail _ hi ih => exact step _ _ ih hi

theorem Provides.mem_components {name : String} {c : Component} (h : sources.Provides name c) :
    c ∈ sources.components := by
  have hl := (locate_eq_ok_iff name c).mpr h
  unfold components
  cases h with
  | listed path _ hp _ =>
    refine List.mem_append_left _ (List.mem_filterMap.mpr ?_)
    obtain ⟨text, ht, -, -⟩ := hp
    unfold Manifest.Listing.get? at ht
    obtain ⟨entry, he, -⟩ := Option.map_eq_some_iff.mp ht
    have hn : entry.1 = name := by simpa using List.find?_some he
    refine ⟨entry, List.mem_of_find?_eq_some he, ?_⟩
    simp [hn, hl, Except.toOption]
  | referenced r _ hr =>
    obtain ⟨before, after, h, -, -⟩ := hr
    refine List.mem_append_right _ (List.mem_map.mpr ⟨r, ?_, rfl⟩)
    simp [h]

theorem Reaches.mem_names {name : String} (h : sources.Reaches script name) :
    name ∈ sources.names script := by
  have all : ∀ c n, (c = script ∨ c ∈ sources.components) → n ∈ c.importNames →
      n ∈ sources.names script := by
    intro c n hc hn
    unfold names
    rw [List.mem_eraseDups, List.mem_flatMap]
    exact ⟨c, by simpa using hc, hn⟩
  refine h.induction (fun n hn => all script n (.inl rfl) hn) ?_
  rintro _ n _ ⟨c, hc, hn⟩
  exact all c n (.inr hc.mem_components) hn

end Sources

end ComponentHost
