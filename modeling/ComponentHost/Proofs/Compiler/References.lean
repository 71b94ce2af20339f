import ComponentHost.Proofs.Compiler.Diagnostics
import Mathlib.Data.List.Basic

/-! # The references of a script

A script is compiled with the references that could be loaded. It is an error when one could not, or when
none of them exports an import; a reference that exports no import is only warned of. -/
set_option autoImplicit false

namespace ComponentHost

/-! ## The warning -/

/-- The warning that a reference is not used. -/
def unusedReference (path : Path) : Diagnostic :=
  .warning s!"reference \x60{path.text}\x60 is not used by the script"

theorem unusedReference_inj {path path' : Path} (h : unusedReference path = unusedReference path') :
    path = path' := by
  obtain ⟨text⟩ := path
  obtain ⟨text'⟩ := path'
  have hmessage := congrArg (fun d => d.message.toList) h
  simp only [unusedReference, Diagnostic.warning, toString, String.toList_append] at hmessage
  have htext := List.append_cancel_left (List.append_cancel_right hmessage)
  rw [String.toList_inj.mp htext]

open Diagnostic

/-! ## The references of a compilation -/

namespace Compiler

variable {compiler : Compiler} {fs : FileSystem} {level : OptimizationLevel} {source : String}
  {script : Script} {paths : List Path}

/-- The references at some paths, as far as they can be loaded. -/
def loadedFrom (fs : FileSystem) (paths : List Path) : List LoadedReference :=
  loaded (paths.map fun path => (path, Component.load fs path))

theorem loadedFrom_eq (fs : FileSystem) (paths : List Path) :
    loadedFrom fs paths = paths.filterMap fun path =>
      (Component.load fs path).toOption.map fun component => ⟨path, component⟩ := by
  unfold loadedFrom loaded
  rw [List.filterMap_map]
  refine List.filterMap_congr fun path _ => ?_
  rw [Function.comp_apply]
  cases Component.load fs path <;> rfl

theorem mem_loadedFrom {r : LoadedReference} :
    r ∈ loadedFrom fs paths ↔ r.path ∈ paths ∧ Component.load fs r.path = .ok r.component := by
  rw [loadedFrom_eq, List.mem_filterMap]
  constructor
  · rintro ⟨path, hp, hr⟩
    obtain ⟨component, hc, rfl⟩ := Option.map_eq_some_iff.mp hr
    refine ⟨hp, ?_⟩
    cases hl : Component.load fs path with
    | error fault =>
      rw [hl] at hc
      cases hc
    | ok c =>
      rw [hl] at hc
      cases hc
      rfl
  · rintro ⟨hp, hl⟩
    refine ⟨r.path, hp, ?_⟩
    rw [hl]
    rfl

theorem loadedFrom_filter (fs : FileSystem) (paths : List Path) (kept : Path → Bool) :
    loadedFrom fs (paths.filter kept) = (loadedFrom fs paths).filter fun r => kept r.path := by
  rw [loadedFrom_eq, loadedFrom_eq, List.filterMap_filter, List.filter_filterMap]
  refine List.filterMap_congr fun path _ => ?_
  cases Component.load fs path <;> by_cases hk : kept path = true <;>
    simp [hk, Except.toOption, Option.filter]

/-- What can be loaded from some paths can be loaded from fewer. -/
theorem failures_filter (fs : FileSystem) (paths : List Path) (kept : Path → Bool) :
    (failures ((paths.filter kept).map fun path => (path, Component.load fs path))).Sublist
      (failures (paths.map fun path => (path, Component.load fs path))) := by
  unfold failures
  exact (List.filter_sublist.map _).filterMap _

theorem unresolved_eq_nil_iff {component : Component} {references : List LoadedReference} :
    unresolved component references = [] ↔
      ∀ name ∈ component.importNames, ∃ r ∈ references, r.exports name = true := by
  simp [unresolved, List.filter_eq_nil_iff]

theorem mem_unused_iff {component : Component} {references : List LoadedReference} {r : LoadedReference}
    (hr : ∀ r' ∈ references, r'.path = r.path → r' = r) :
    unusedReference r.path ∈ unused component references ↔
      r ∈ references ∧ ∀ name ∈ component.importNames, r.exports name = false := by
  unfold unused
  constructor
  · intro h
    obtain ⟨r', hm, he⟩ := List.mem_map.mp h
    obtain ⟨hm, hn⟩ := List.mem_filter.mp hm
    cases hr r' hm (unusedReference_inj he)
    exact ⟨hm, by simpa using hn⟩
  · rintro ⟨hm, hn⟩
    exact List.mem_map.mpr ⟨r, List.mem_filter.mpr ⟨hm, by simpa using hn⟩, rfl⟩

/-- The errors of a compilation are references that do not load and imports that are not exported. -/
theorem errors_nil_iff (component : Component) (references : List LoadedReference)
    (loads : List (Path × Except Component.Fault Component)) :
    hasErrors (failures loads ++ unresolved component references ++ unused component references) = false ↔
      failures loads = [] ∧ unresolved component references = [] := by
  have hfailures : ∀ d ∈ failures loads, d.isError = true := by
    intro d hd
    obtain ⟨⟨path, result⟩, -, he⟩ := List.mem_filterMap.mp hd
    cases result with
    | error fault =>
      cases he
      rfl
    | ok c => cases he
  have hunresolved : ∀ d ∈ unresolved component references, d.isError = true := by
    intro d hd
    obtain ⟨name, -, rfl⟩ := List.mem_map.mp hd
    rfl
  have hunused : ∀ d ∈ unused component references, d.isError = false := by
    intro d hd
    obtain ⟨r, -, rfl⟩ := List.mem_map.mp hd
    rfl
  rw [hasErrors_eq_false_iff, List.forall_mem_append, List.forall_mem_append]
  constructor
  · rintro ⟨⟨hf, hu⟩, -⟩
    exact ⟨eq_nil_of_isError hfailures hf, eq_nil_of_isError hunresolved hu⟩
  · rintro ⟨hf, hu⟩
    rw [hf, hu]
    exact ⟨⟨nofun, nofun⟩, hunused⟩

/-- When warnings are not errors, a script is compiled if it can be read, all references can be loaded and
every import is exported by one of them. -/
theorem compile_lenient_iff {references : ReferenceSet} :
    compile ⟨references, false⟩ fs level source = .ok script ↔
      (Text.trim source).isEmpty = false ∧ ∃ component, Component.parse (Text.trim source) = .ok component ∧
        failures (references.paths.map fun path => (path, Component.load fs path)) = [] ∧
        unresolved component (loadedFrom fs references.paths) = [] ∧
        script = ⟨level, component, loadedFrom fs references.paths,
          unused component (loadedFrom fs references.paths)⟩ := by
  unfold compile
  dsimp only
  split
  · next he => simp [he]
  · next he =>
    rw [Bool.not_eq_true] at he
    cases hp : Component.parse (Text.trim source) with
    | error fault => simp
    | ok component =>
      have herrors := errors_nil_iff component (loadedFrom fs references.paths)
        (references.paths.map fun path => (path, Component.load fs path))
      dsimp only [finish]
      rw [Bool.false_and, Bool.or_false, ← loadedFrom]
      split
      · next hd =>
        refine iff_of_false nofun ?_
        rintro ⟨-, _, ⟨⟩, hf, hu, -⟩
        rw [herrors.mpr ⟨hf, hu⟩] at hd
        cases hd
      · next hd =>
        obtain ⟨hf, hu⟩ := herrors.mp (Bool.eq_false_iff.mpr hd)
        refine ⟨fun h => ?_, ?_⟩
        · cases h
          refine ⟨he, component, rfl, hf, hu, ?_⟩
          rw [hf, hu, List.nil_append, List.nil_append]
        · rintro ⟨-, _, ⟨⟩, -, -, rfl⟩
          rw [hf, hu, List.nil_append, List.nil_append]

end Compiler

end ComponentHost
