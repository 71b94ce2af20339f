import ComponentHost.Proofs.Compiler.Report

/-! # Where link errors come from

Compiling has seen to it that every import of the script is exported by one of its references. So a name that
nothing provides is an import of a dependency only. A reference that is found for a name exports the name, so
it is a file of the manifest that lacks an export or holds no component, and such a file is never passed over
for a reference. No name is linked twice. -/
set_option autoImplicit false

namespace ComponentHost

open Relation

/-- Every import of a script is exported by one of the references that it was compiled with. -/
theorem Compiler.compile_provides {compiler : Compiler} {fs : FileSystem} {level : OptimizationLevel}
    {source : String} {script : Script} (h : compiler.compile fs level source = .ok script) :
    ∀ name ∈ script.component.importNames, ∃ r ∈ script.references, r.exports name = true := by
  unfold compile at h
  dsimp only at h
  split at h
  · cases h
  · split at h
    · cases h
    · next component _ =>
      unfold finish at h
      dsimp only at h
      split at h
      · cases h
      · next hd =>
        cases h
        have herrors := (Bool.or_eq_false_iff.mp (Bool.eq_false_iff.mpr hd)).1
        exact unresolved_eq_nil_iff.mp ((errors_nil_iff _ _ _).mp herrors).2

namespace Sources

variable {sources : Sources} {script : Component} {name : String}

/-- A name that a script reaches is an import of its own or one of a dependency. -/
theorem Reaches.cases (h : sources.Reaches script name) :
    name ∈ script.importNames ∨ ∃ importer, sources.Reaches script importer ∧ sources.Imports importer name := by
  obtain ⟨root, hr, hp⟩ := h
  rcases hp.cases_tail with rfl | ⟨importer, hp, hi⟩
  · exact .inl hr
  · exact .inr ⟨importer, ⟨root, hr, hp⟩, hi⟩

/-- A component that does not export its name is that of a file that the manifest lists. -/
theorem Provides.listed_of_not_mem {c : Component} (h : sources.Provides name c) (hx : name ∉ c.exportNames) :
    ∃ path, sources.Lists name path ∧ Component.load sources.fs path = .ok c := by
  cases h with
  | listed path _ hl hc => exact ⟨path, hl, hc⟩
  | referenced r _ hr =>
    exact absurd (Compiler.exports_iff.mp hr.exports) hx

/-- A name has the component of the file that the manifest lists for it, or none. -/
theorem Provides.load_of_lists {c : Component} (h : sources.Provides name c) {path : Path}
    (hl : sources.Lists name path) : Component.load sources.fs path = .ok c := by
  cases h with
  | listed path' _ hl' hc => rwa [hl.unique hl']
  | referenced _ hn _ => exact absurd hl (hn path)

end Sources

namespace Linked

variable {compiler : Compiler} {fs : FileSystem} {level : OptimizationLevel} {source : String}
  {script : Script} {sources : Sources}

/-- Linking a script that has been compiled, with any manifest and whatever has become of the files since,
misses a provider only for a name that a dependency imports and the script does not. It blames a component
only when that is of a file that the manifest lists for the name, and then the name has no other. It never
finds a name linked twice. -/
theorem link_error_causes (hc : compiler.compile fs level source = .ok script)
    (hr : sources.references = script.references) (fuel : Nat) (maxMemoryBytes : Option Nat) :
    (∀ e, link fuel sources maxMemoryBytes script.component = .ok (.error e) →
      (∀ name, e = .unresolved name → name ∉ script.component.importNames ∧
        ∃ importer, sources.Reaches script.component importer ∧ sources.Imports importer name) ∧
      (∀ name, e = .missingExport name → ∃ path c, sources.Lists name path ∧
        Component.load sources.fs path = .ok c ∧ name ∉ c.exportNames) ∧
      (∀ path fault, e = .invalidDependency path fault → ∃ name, sources.Lists name path ∧
        Component.load sources.fs path = .error fault) ∧
      ∀ what, e ≠ .linkedTwice what) ∧
    ∀ linked, link fuel sources maxMemoryBytes script.component = .ok (.ok linked) →
      ∀ name path, sources.Reaches script.component name → sources.Lists name path →
        ∃ c, Component.load sources.fs path = .ok c ∧ name ∈ c.exportNames := by
  have hcompiled : sources.Compiled script.component := by
    have h : Sources.Compiled ⟨sources.fs, sources.manifest, script.references⟩ script.component :=
      Compiler.compile_compiled sources.manifest hc
    rwa [← hr] at h
  refine ⟨fun e h => ?_, fun linked h name path hn hl => ?_⟩
  · rcases link_error h with ⟨name, trap, rfl⟩ | ⟨plan, hp⟩
    · exact ⟨nofun, nofun, nofun, nofun⟩
    · cases Plan.ofScript_error hp with
      | unresolved name hn _ hx =>
        refine ⟨?_, nofun, nofun, nofun⟩
        rintro _ ⟨⟩
        -- a reference exports every import of the script, and none exports this name
        have hown : name ∉ script.component.importNames := by
          intro hm
          obtain ⟨r, hmr, hxr⟩ := Compiler.compile_provides hc name hm
          rw [hx r (hr ▸ hmr)] at hxr
          cases hxr
        exact ⟨hown, hn.cases.resolve_left hown⟩
      | missingExport name c _ hc' hx =>
        refine ⟨nofun, ?_, nofun, nofun⟩
        rintro _ ⟨⟩
        obtain ⟨path, hl, hload⟩ := hc'.listed_of_not_mem hx
        exact ⟨path, c, hl, hload, hx⟩
      | invalidDependency name path fault _ hl hf =>
        refine ⟨nofun, nofun, ?_, nofun⟩
        rintro _ _ ⟨⟩
        exact ⟨name, hl, hf⟩
      | linkedTwice what c hw hd => exact absurd (hcompiled.accepted hw).distinctNames hd
      | cycle | unsupportedImport => exact ⟨nofun, nofun, nofun, nofun⟩
  · obtain ⟨c, hc', hx⟩ := (resolvable_of_link h).provided name hn
    exact ⟨c, hc'.load_of_lists hl, hx⟩

/-- The name that an attempt to link finds no provider for. -/
def missing? : Except Stall (Except LinkError Linked) → Option String
  | .ok (.error (.unresolved name)) => some name
  | _ => none

theorem missing?_eq_some_iff {result : Except Stall (Except LinkError Linked)} {name : String} :
    missing? result = some name ↔ result = .ok (.error (.unresolved name)) := by
  constructor
  · intro h
    unfold missing? at h
    split at h
    · rw [Option.some.inj h]
    · cases h
  · rintro rfl
    rfl

/-- The reference of a script exports what the script imports, and nothing exports what the reference does. -/
theorem dependency_import_unresolved :
    ∃ script, Compiler.compileNested false [⟨"/b"⟩] = .ok script ∧
      link 10 ⟨Boundary.nestedFiles, ⟨⟨"/"⟩, []⟩, script.references⟩ none script.component =
        .ok (.error (.unresolved "d")) ∧
      "d" ∉ script.component.importNames := by
  have heval : ((Compiler.compileNested false [⟨"/b"⟩]).toOption.bind fun script =>
      missing? (link 10 ⟨Boundary.nestedFiles, ⟨⟨"/"⟩, []⟩, script.references⟩ none script.component)) =
      some "d" := by
    decide +kernel
  obtain ⟨script, hscript, hmissing⟩ := Option.bind_eq_some_iff.mp heval
  have hc := ok_of_toOption hscript
  have hl := missing?_eq_some_iff.mp hmissing
  exact ⟨script, hc, hl, (((link_error_causes hc rfl 10 none).1 _ hl).1 "d" rfl).1⟩

end Linked

end ComponentHost
