import ComponentHost.Proofs.Boundary.Presence
import ComponentHost.Proofs.Compiler.References
import ComponentHost.Proofs.Dependency.Agreement

/-! # References that are reported as unused

A reference is reported as unused when it exports none of the names that the script itself imports. It may
still provide an import of a dependency. So leaving the reported references out changes nothing just when
none of them provides a name that the script reaches. -/
set_option autoImplicit false

namespace ComponentHost

namespace LoadOutcome

/-- A load has reported the reference at a path as unused. -/
def Reports (outcome : LoadOutcome) (path : Path) : Prop := unusedReference path ∈ outcome.diagnostics

instance (outcome : LoadOutcome) (path : Path) : Decidable (outcome.Reports path) :=
  inferInstanceAs (Decidable (unusedReference path ∈ outcome.diagnostics))

/-- A load has a module of a script that was linked from sources. -/
structure LinkedFrom (outcome : LoadOutcome) (fs : FileSystem) (request : LoadRequest) (script : Script)
    (sources : Sources) : Prop where
  module : outcome.hasModule = true
  compiled : outcome.boundary.script? = some script
  files : sources.fs = fs
  manifest : Manifest.load fs (request.directory fs.cwd) = .ok sources.manifest
  references : sources.references = script.references

end LoadOutcome

/-- A request for the same script, with the references of another one that its load has not reported. -/
structure LoadRequest.LeavesOut (request' request : LoadRequest) (fs : FileSystem) (outcome : LoadOutcome) :
    Prop where
  baseDir : request'.baseDir = request.baseDir
  source : request'.source = request.source
  paths : (request'.resolved fs).1.paths =
    (request.resolved fs).1.paths.filter fun path => ¬ outcome.Reports path

theorem LoadRequest.LeavesOut.directory {request' request : LoadRequest} {fs : FileSystem}
    {outcome : LoadOutcome} (h : request'.LeavesOut request fs outcome) :
    request'.directory fs.cwd = request.directory fs.cwd := by
  rw [LoadRequest.directory, LoadRequest.directory, h.baseDir]

/-- A name that leads to no file is warned of in other words. -/
theorem unusedReference_ne_unresolved (path : Path) (name : String) :
    unusedReference path ≠ Boundary.unresolvedReference name := by
  intro h
  have hlast := congrArg (fun d => d.message.toList.getLast?) h
  simp [unusedReference, Boundary.unresolvedReference, Diagnostic.warning, toString, List.getLast?_cons,
    List.getLast?_append] at hlast

open Diagnostic

/-! ## Loading again -/

namespace Boundary

variable {fs : FileSystem} {fuel : Nat} {settings : Settings} {id scriptId : Id}
  {request request' : LoadRequest} {outcome : LoadOutcome} {script : Script} {sources : Sources}

/-- When warnings are not errors, an attempt loads what can be compiled and linked. -/
theorem attempt_lenient_iff (hw : settings.warningsAsErrors = false) {manifest : Manifest}
    {references : ReferenceSet} {unresolved : List Diagnostic} {source : String} {linked : Linked}
    {ds : List Diagnostic} :
    attempt fs fuel settings manifest ⟨references, false⟩ unresolved source =
        .ok ⟨ds, some (script, linked)⟩ ↔
      Compiler.compile ⟨references, false⟩ fs settings.optimization source = .ok script ∧
        Linked.link fuel ⟨fs, manifest, script.references⟩ (settings.maxMemoryBytes.map UInt64.toNat)
          script.component = .ok (.ok linked) ∧
        ds = unresolved ++ script.warnings := by
  unfold attempt
  rw [hw]
  cases hc : Compiler.compile ⟨references, false⟩ fs settings.optimization source with
  | error e => simp
  | ok compiled =>
    dsimp only
    rw [Bool.false_and, if_neg Bool.false_ne_true]
    constructor
    · intro h
      split at h
      · cases h
      · cases h
      · next hl =>
        cases h
        exact ⟨rfl, hl, rfl⟩
    · rintro ⟨⟨⟩, hl, rfl⟩
      rw [hl]

/-- When warnings are not errors, a load has the module of a script just when its directory is there, its
manifest can be read, and the script can be compiled and linked. -/
theorem load_module_iff (hw : settings.warningsAsErrors = false) :
    (load fs fuel settings id scriptId request = .ok (.ok outcome) ∧ outcome.hasModule = true) ↔
      fs.isDir request.baseDir = true ∧ ∃ manifest script linked,
        Manifest.load fs (request.directory fs.cwd) = .ok manifest ∧
          Compiler.compile ⟨(request.resolved fs).1, false⟩ fs settings.optimization request.source =
            .ok script ∧
          Linked.link fuel ⟨fs, manifest, script.references⟩ (settings.maxMemoryBytes.map UInt64.toNat)
            script.component = .ok (.ok linked) ∧
          outcome = (Attempt.mk ((request.resolved fs).2.map unresolvedReference ++ script.warnings)
            (some (script, linked))).made settings id scriptId (request.directory fs.cwd) := by
  have hattempt : ∀ manifest, request.attempt fs fuel settings manifest =
      attempt fs fuel settings manifest ⟨(request.resolved fs).1, false⟩
        ((request.resolved fs).2.map unresolvedReference) request.source := by
    intro manifest
    rw [LoadRequest.attempt, LoadRequest.compiler, hw]
  constructor
  · rintro ⟨h, hm⟩
    obtain ⟨hd, manifest, ⟨ds, loaded⟩, hmanifest, ha, rfl⟩ := load_attempted h
    rw [made_hasModule] at hm
    obtain ⟨⟨script, linked⟩, rfl⟩ := Option.isSome_iff_exists.mp hm
    rw [hattempt] at ha
    obtain ⟨hc, hl, rfl⟩ := (attempt_lenient_iff hw).mp ha
    exact ⟨hd, manifest, script, linked, hmanifest, hc, hl, rfl⟩
  · rintro ⟨hd, manifest, script, linked, hmanifest, hc, hl, rfl⟩
    refine ⟨?_, rfl⟩
    rw [load_eq hd hmanifest, hattempt, (attempt_lenient_iff hw).mpr ⟨hc, hl, rfl⟩]
    rfl

/-- A load that has a module has it of the script and the references that were compiled. -/
theorem linkedFrom_iff (hw : settings.warningsAsErrors = false)
    (h : load fs fuel settings id scriptId request = .ok (.ok outcome)) :
    outcome.LinkedFrom fs request script sources ↔
      Compiler.compile ⟨(request.resolved fs).1, false⟩ fs settings.optimization request.source = .ok script ∧
        sources.fs = fs ∧ Manifest.load fs (request.directory fs.cwd) = .ok sources.manifest ∧
        sources.references = script.references ∧ outcome.hasModule = true := by
  constructor
  · rintro ⟨hm, hs, hf, hmanifest, hr⟩
    obtain ⟨-, _, script', linked, -, hc, -, rfl⟩ := (load_module_iff hw).mp ⟨h, hm⟩
    cases hs
    exact ⟨hc, hf, hmanifest, hr, hm⟩
  · rintro ⟨hc, hf, hmanifest, hr, hm⟩
    obtain ⟨-, _, script', linked, -, hc', -, rfl⟩ := (load_module_iff hw).mp ⟨h, hm⟩
    cases hc.symm.trans hc'
    exact ⟨hm, rfl, hf, hmanifest, hr⟩

/-- A reference that was loaded is reported when it exports none of the script's imports. -/
theorem reports_iff {unresolved : List String} {component : Component} {paths : List Path}
    {r : LoadedReference} (hr : r ∈ Compiler.loadedFrom fs paths) :
    unusedReference r.path ∈ unresolved.map unresolvedReference ++
        Compiler.unused component (Compiler.loadedFrom fs paths) ↔
      ∀ name ∈ component.importNames, r.exports name = false := by
  have hunresolved : unusedReference r.path ∉ unresolved.map unresolvedReference := by
    intro h
    obtain ⟨name, -, he⟩ := List.mem_map.mp h
    exact unusedReference_ne_unresolved r.path name he.symm
  rw [List.mem_append, or_iff_right hunresolved, Compiler.mem_unused_iff, and_iff_right hr]
  -- the file at a path is one component
  intro r' hr' hp
  have hl := (Compiler.mem_loadedFrom.mp hr).2
  have hl' := (Compiler.mem_loadedFrom.mp hr').2
  rw [hp, hl] at hl'
  obtain ⟨path, component⟩ := r
  obtain ⟨path', component'⟩ := r'
  cases hp
  cases hl'
  rfl

/-- A reference that exports an import of the script is not reported. -/
theorem not_reports_of_exports (hw : settings.warningsAsErrors = false)
    (h : load fs fuel settings id scriptId request = .ok (.ok outcome))
    (hf : outcome.LinkedFrom fs request script sources) {name : String}
    (hn : name ∈ script.component.importNames) {r : LoadedReference} (hr : r ∈ script.references)
    (hx : r.exports name = true) : ¬ outcome.Reports r.path := by
  intro hreports
  obtain ⟨-, _, compiled, linked, -, hc, -, rfl⟩ := (load_module_iff hw).mp ⟨h, hf.module⟩
  cases hf.compiled
  obtain ⟨-, component, -, -, -, hscript⟩ := Compiler.compile_lenient_iff.mp hc
  rw [LoadOutcome.Reports, Attempt.made] at hreports
  subst hscript
  rw [(reports_iff hr).mp hreports name hn] at hx
  cases hx

/-- Without the references that its load has reported, a script compiles to what it did. -/
theorem compile_leavesOut (hw : settings.warningsAsErrors = false)
    (h : load fs fuel settings id scriptId request = .ok (.ok outcome))
    (hf : outcome.LinkedFrom fs request script sources) (hr : request'.LeavesOut request fs outcome) :
    ∃ script', Compiler.compile ⟨(request'.resolved fs).1, false⟩ fs settings.optimization
        request'.source = .ok script' ∧
      script'.component = script.component ∧
      script'.references = script.references.filter fun r => ¬ outcome.Reports r.path := by
  have hown := fun name (hn : name ∈ script.component.importNames) r hm hx =>
    not_reports_of_exports hw h hf hn (r := r) hm hx
  have hc := ((linkedFrom_iff hw h).mp hf).1
  obtain ⟨hne, component, hparse, hfailures, hu, rfl⟩ := Compiler.compile_lenient_iff.mp hc
  refine ⟨_, Compiler.compile_lenient_iff.mpr ⟨hr.source ▸ hne, component, hr.source ▸ hparse, ?_, ?_, rfl⟩,
    rfl, ?_⟩
  · rw [hr.paths]
    exact List.sublist_nil.mp (hfailures ▸ Compiler.failures_filter fs _ _)
  · rw [hr.paths, Compiler.loadedFrom_filter, Compiler.unresolved_eq_nil_iff]
    intro name hn
    obtain ⟨r, hm, hx⟩ := Compiler.unresolved_eq_nil_iff.mp hu name hn
    exact ⟨r, List.mem_filter.mpr ⟨hm, decide_eq_true (hown name hn r hm hx)⟩, hx⟩
  · rw [hr.paths, Compiler.loadedFrom_filter]

/-- Where all references are left that provide what the script reaches, the second load links what the
first one did. -/
theorem load_leavesOut (hw : settings.warningsAsErrors = false)
    (h : load fs fuel settings id scriptId request = .ok (.ok outcome))
    (hf : outcome.LinkedFrom fs request script sources) (hr : request'.LeavesOut request fs outcome)
    (hs : sources.Spares script.component fun path => ¬ outcome.Reports path) (id' scriptId' : Id) :
    ∃ outcome' script', load fs fuel settings id' scriptId' request' = .ok (.ok outcome') ∧
      outcome'.LinkedFrom fs request' script' (sources.keep fun path => ¬ outcome.Reports path) ∧
      outcome'.boundary.content = outcome.boundary.content := by
  obtain ⟨script', hc', hcomponent, hreferences⟩ := compile_leavesOut hw h hf hr
  obtain ⟨hc, hfiles, hmanifest, hrefs, -⟩ := (linkedFrom_iff hw h).mp hf
  obtain ⟨hd, manifest, compiled, linked, hm, hcompiled, hl, he⟩ :=
    (load_module_iff hw).mp ⟨h, hf.module⟩
  cases hc.symm.trans hcompiled
  cases hm.symm.trans hmanifest
  have hsources : (⟨fs, sources.manifest, script.references⟩ : Sources) = sources := by
    rw [← hfiles, ← hrefs]
  have hkeep : (⟨fs, sources.manifest, script'.references⟩ : Sources) =
      sources.keep fun path => ¬ outcome.Reports path := by
    rw [hreferences, Sources.keep, hfiles, hrefs]
  have haccepted : Sources.Compiled ⟨fs, sources.manifest, script'.references⟩ script'.component :=
    Compiler.compile_compiled sources.manifest hc'
  rw [hsources] at hl
  rw [hkeep, hcomponent] at haccepted
  have hlink := Linked.link_agree (hs.agree (Linked.resolvable_of_link hl)) haccepted hl
  rw [← hkeep, ← hcomponent] at hlink
  have hmodule : load fs fuel settings id' scriptId' request' = .ok (.ok _) ∧ _ :=
    (load_module_iff hw).mpr
      ⟨hr.baseDir ▸ hd, sources.manifest, script', linked, hr.directory ▸ hmanifest, hc', hlink, rfl⟩
  obtain ⟨hl', hm'⟩ := hmodule
  refine ⟨_, script', hl', (linkedFrom_iff hw hl').mpr ⟨hc', hfiles, ?_, ?_, hm'⟩, ?_⟩
  · rw [hr.directory]
    exact hmanifest
  · rw [← hkeep]
  · rw [he]
    rfl

/-- References that are reported as unused provide none of the names that the script imports itself. Loading
the script again with just these left out gives a module in which every name that it reaches has the
provider that it had, if and only if none of them provides such a name. Then the module is the same. -/
theorem unused_references_removable_iff (hw : settings.warningsAsErrors = false)
    (h : load fs fuel settings id scriptId request = .ok (.ok outcome)) (hm : outcome.hasModule = true)
    (hr : request'.LeavesOut request fs outcome) (id' scriptId' : Id) :
    ∃ script sources, outcome.LinkedFrom fs request script sources ∧
      (∀ name, sources.Reaches script.component name → ∃ origin, sources.ComesFrom name origin) ∧
      (∀ name ∈ script.component.importNames, ∀ path, sources.ComesFrom name (.referenced path) →
        ¬ outcome.Reports path) ∧
      ((∃ outcome' script' sources',
          load fs fuel settings id' scriptId' request' = .ok (.ok outcome') ∧
          outcome'.LinkedFrom fs request' script' sources' ∧
          sources.SameOrigins sources' script.component) ↔
        sources.Spares script.component fun path => ¬ outcome.Reports path) ∧
      ((sources.Spares script.component fun path => ¬ outcome.Reports path) →
        ∃ outcome', load fs fuel settings id' scriptId' request' = .ok (.ok outcome') ∧
          outcome'.boundary.content = outcome.boundary.content) := by
  obtain ⟨-, manifest, script, linked, hmanifest, hc, hl, -⟩ := (load_module_iff hw).mp ⟨h, hm⟩
  have hf : outcome.LinkedFrom fs request script ⟨fs, manifest, script.references⟩ :=
    (linkedFrom_iff hw h).mpr ⟨hc, rfl, hmanifest, rfl, hm⟩
  have hresolvable := Linked.resolvable_of_link hl
  refine ⟨script, _, hf, fun name hn => ?_, fun name hn path ho => ?_, ⟨?_, fun hs => ?_⟩, fun hs => ?_⟩
  · obtain ⟨c, hp, -⟩ := hresolvable.provided name hn
    exact hp.comesFrom
  · cases ho with
    | referenced _ hx => exact not_reports_of_exports hw h hf hn hx.mem hx.exports
  · rintro ⟨outcome', script'', sources', hl', hf', hsame⟩ name hn path ho
    have ho' := (hsame name hn _).mpr ho
    obtain ⟨script', hc', -, hreferences⟩ := compile_leavesOut hw h hf hr
    obtain ⟨hc'', -, -, hreferences', -⟩ := (linkedFrom_iff hw hl').mp hf'
    cases hc'.symm.trans hc''
    cases ho' with
    | referenced _ hx =>
      have hkept := hx.mem
      rw [hreferences', hreferences] at hkept
      exact (List.mem_filter.mp hkept).2
  · obtain ⟨outcome', script', hl', hf', -⟩ := load_leavesOut hw h hf hr hs id' scriptId'
    exact ⟨outcome', script', _, hl', hf', hs.sameOrigins hresolvable⟩
  · obtain ⟨outcome', -, hl', -, hcontent⟩ := load_leavesOut hw h hf hr hs id' scriptId'
    exact ⟨outcome', hl', hcontent⟩

/-! ## A reference that a dependency needs -/

/-- A directory with two components, the first of which imports the second. -/
def nestedFiles : FileSystem where
  cwd := ⟨"/"⟩
  nodes := [
    (["b"], .file (Text.Utf8.encode
      "(component (import \"d\" (instance)) (instance) (export \"b\" (instance 1)))")),
    (["d"], .file (Text.Utf8.encode "(component (instance) (export \"d\" (instance 0)))"))]

/-- A script that imports the first of the two, with some references. -/
def nestedRequest (references : List String) : LoadRequest :=
  ⟨⟨"/"⟩, "(component (import \"b\" (instance)))", references⟩

def loadNested (references : List String) : Except Stall (Except LoadError LoadOutcome) :=
  load nestedFiles 10 .standard ⟨0⟩ ⟨1⟩ (nestedRequest references)

/-- With both references the second is reported; without it there is no module. -/
theorem loadNested_cases :
    (∃ outcome, loadNested ["b", "d"] = .ok (.ok outcome) ∧ outcome.hasModule = true ∧
      outcome.diagnostics = [unusedReference ⟨"/d"⟩]) ∧
    ∃ outcome, loadNested ["b"] = .ok (.ok outcome) ∧ outcome.hasModule = false := by
  have hwith : ((loadNested ["b", "d"]).toOption.bind fun result => result.toOption.map fun outcome =>
      (outcome.hasModule, outcome.diagnostics)) = some (true, [unusedReference ⟨"/d"⟩]) := by
    decide +kernel
  have hwithout : ((loadNested ["b"]).toOption.bind fun result =>
      result.toOption.map LoadOutcome.hasModule) = some false := by
    decide +kernel
  constructor
  · match h : loadNested ["b", "d"] with
    | .ok (.ok outcome) =>
      rw [h] at hwith
      obtain ⟨hm, hd⟩ := Prod.mk.inj (Option.some.inj hwith)
      exact ⟨outcome, rfl, hm, hd⟩
    | .ok (.error e) | .error stall =>
      rw [h] at hwith
      cases hwith
  · match h : loadNested ["b"] with
    | .ok (.ok outcome) =>
      rw [h] at hwithout
      exact ⟨outcome, rfl, Option.some.inj hwithout⟩
    | .ok (.error e) | .error stall =>
      rw [h] at hwithout
      cases hwithout

theorem nestedRequest_leavesOut {outcome : LoadOutcome}
    (h : outcome.diagnostics = [unusedReference ⟨"/d"⟩]) :
    (nestedRequest ["b"]).LeavesOut (nestedRequest ["b", "d"]) nestedFiles outcome where
  baseDir := rfl
  source := rfl
  paths := by
    have hall : ((nestedRequest ["b"]).resolved nestedFiles).1.paths =
        ((nestedRequest ["b", "d"]).resolved nestedFiles).1.paths.filter fun path =>
          ¬ unusedReference path ∈ [unusedReference ⟨"/d"⟩] := by
      decide +kernel
    rw [hall, ← h]
    rfl

/-- A reference that is reported as unused may be the only one that exports an import of a dependency.
Loading again without it gives no module. -/
theorem reported_reference_needed :
    ∃ outcome outcome', loadNested ["b", "d"] = .ok (.ok outcome) ∧ outcome.hasModule = true ∧
      outcome.Reports ⟨"/d"⟩ ∧ (nestedRequest ["b"]).LeavesOut (nestedRequest ["b", "d"]) nestedFiles outcome ∧
      loadNested ["b"] = .ok (.ok outcome') ∧ outcome'.hasModule = false := by
  obtain ⟨⟨outcome, h, hm, hd⟩, outcome', h', hm'⟩ := loadNested_cases
  refine ⟨outcome, outcome', h, hm, ?_, nestedRequest_leavesOut hd, h', hm'⟩
  rw [LoadOutcome.Reports, hd]
  exact List.mem_cons_self

/-- There the reported reference provides a name that the script reaches. -/
theorem reported_reference_not_spared :
    ∃ outcome script sources, loadNested ["b", "d"] = .ok (.ok outcome) ∧
      outcome.LinkedFrom nestedFiles (nestedRequest ["b", "d"]) script sources ∧
      ¬ sources.Spares script.component fun path => ¬ outcome.Reports path := by
  obtain ⟨⟨outcome, h, hm, hd⟩, outcome', h', hm'⟩ := loadNested_cases
  obtain ⟨script, sources, hf, -, -, hiff, -⟩ :=
    unused_references_removable_iff rfl h hm (nestedRequest_leavesOut hd) ⟨0⟩ ⟨1⟩
  refine ⟨outcome, script, sources, h, hf, fun hs => ?_⟩
  obtain ⟨_, _, _, h'', hf', -⟩ := hiff.mpr hs
  cases h'.symm.trans h''
  cases hm'.symm.trans hf'.module

end Boundary

end ComponentHost
