import ComponentHost.Proofs.Boundary.Tally
import ComponentHost.Proofs.Compiler.Diagnostics
import ComponentHost.Proofs.Dependency.Instances

/-! # When a module is present

A load has a module exactly when its diagnostics allow one: no error is among them and, where warnings are
errors, there are none at all. Taking warnings for errors changes nothing else: the diagnostics of a strict
load are the first of the lenient one's, and a strict load that has a module is the lenient one. -/
set_option autoImplicit false

namespace ComponentHost

open Diagnostic

namespace Boundary

/-! ## Attempts -/

section Attempt

variable {fs : FileSystem} {fuel : Nat} {settings : Settings} {manifest : Manifest}
  {references : ReferenceSet} {unresolved : List Diagnostic} {source : String}

theorem attempt_loaded_iff {a : Attempt}
    (h : attempt fs fuel settings manifest ⟨references, settings.warningsAsErrors⟩ unresolved source =
      .ok a)
    (hu : ∀ d ∈ unresolved, d.isError = false) :
    a.loaded.isSome = true ↔ Allow settings.warningsAsErrors a.diagnostics := by
  unfold attempt at h
  split at h
  · next e hc =>
    cases h
    exact iff_of_false Bool.false_ne_true fun ha => Compiler.compile_error hc (allow_append.mp ha).2
  · next script hc =>
    have hwarnings := Compiler.compile_ok hc
    dsimp only at h
    split at h
    · next hrejected =>
      cases h
      rw [Bool.and_eq_true, Bool.not_eq_true', ← Bool.not_eq_true, List.isEmpty_iff] at hrejected
      exact iff_of_false Bool.false_ne_true
        fun ha => hrejected.2 ((allow_append.mp ha).1.warnings hrejected.1)
    · next hkept =>
      have hstrict : settings.warningsAsErrors = true → unresolved = [] := by
        intro hw
        rw [hw, Bool.true_and, Bool.not_eq_true, Bool.not_eq_false', List.isEmpty_iff] at hkept
        exact hkept
      split at h
      · cases h
      · cases h
        exact iff_of_false Bool.false_ne_true
          fun ha => not_allow_singleton rfl (allow_append.mp ha).2
      · cases h
        exact iff_of_true rfl (allow_append.mpr ⟨⟨hu, hstrict⟩, hwarnings⟩)

/-- The linking of a script that has been compiled runs out of steps. -/
def LinkingStalls (fs : FileSystem) (fuel : Nat) (settings : Settings) (manifest : Manifest)
    (compiler : Compiler) (source : String) : Prop :=
  ∃ script, compiler.compile fs settings.optimization source = .ok script ∧
    Linked.link fuel ⟨fs, manifest, script.references⟩ (settings.maxMemoryBytes.map UInt64.toNat)
      script.component = .error .unfinished

theorem attempt_stall {compiler : Compiler} {stall : Stall}
    (h : attempt fs fuel settings manifest compiler unresolved source = .error stall) :
    stall = .unfinished ∧ LinkingStalls fs fuel settings manifest compiler source := by
  unfold attempt at h
  split at h
  · cases h
  · next script hc =>
    dsimp only at h
    split at h
    · cases h
    · split at h
      · next stall' hl =>
        cases h
        cases Linked.link_stall hl
        exact ⟨rfl, script, hc, hl⟩
      · cases h
      · cases h

/-- What is loaded has been compiled and linked. -/
theorem attempt_linked {compiler : Compiler} {a : Attempt} {script : Script} {linked : Linked}
    (h : attempt fs fuel settings manifest compiler unresolved source = .ok a)
    (hl : a.loaded = some (script, linked)) :
    compiler.compile fs settings.optimization source = .ok script ∧
      Linked.link fuel ⟨fs, manifest, script.references⟩ (settings.maxMemoryBytes.map UInt64.toNat)
        script.component = .ok (.ok linked) := by
  unfold attempt at h
  split at h
  · cases h
    cases hl
  · next hc =>
    dsimp only at h
    split at h
    · cases h
      cases hl
    · split at h
      · cases h
      · cases h
        cases hl
      · next hlink =>
        cases h
        cases hl
        exact ⟨hc, hlink⟩

/-- A strict attempt beside a lenient one. -/
structure Attempt.Stricter (strict lenient : Attempt) : Prop where
  diagnostics : strict.diagnostics <+: lenient.diagnostics
  of_loaded : strict.loaded.isSome = true → strict = lenient
  of_nil : lenient.diagnostics = [] → strict = lenient

theorem Attempt.Stricter.refl (a : Attempt) : a.Stricter a := ⟨List.prefix_rfl, fun _ => rfl, fun _ => rfl⟩

/-- An attempt that is given up with the first of the lenient one's diagnostics. -/
theorem Attempt.Stricter.of_ne_nil {ds : List Diagnostic} {lenient : Attempt}
    (h : ds <+: lenient.diagnostics) (hne : ds ≠ []) : (⟨ds, none⟩ : Attempt).Stricter lenient where
  diagnostics := h
  of_loaded := fun hs => Bool.noConfusion hs
  of_nil := fun he => absurd (List.prefix_nil.mp (he ▸ h)) hne

theorem attempt_strict {lenient : Attempt}
    (h : attempt fs fuel { settings with warningsAsErrors := false } manifest ⟨references, false⟩
      unresolved source = .ok lenient) :
    ∃ strict, attempt fs fuel { settings with warningsAsErrors := true } manifest ⟨references, true⟩
      unresolved source = .ok strict ∧ strict.Stricter lenient := by
  unfold attempt at h ⊢
  rw [Compiler.compile_strict]
  cases hc : Compiler.compile ⟨references, false⟩ fs settings.optimization source with
  | error e =>
    simp only [hc] at h
    cases h
    exact ⟨_, rfl, .refl _⟩
  | ok script =>
    simp only [hc, Bool.false_and, Bool.false_eq_true, if_false] at h
    -- the lenient attempt goes on to link, with these diagnostics before any other
    have hprefix : unresolved ++ script.warnings <+: lenient.diagnostics := by
      split at h
      · cases h
      · cases h
        exact List.prefix_append _ _
      · cases h
        exact List.prefix_rfl
    dsimp only [Compiler.stricten]
    by_cases hw : script.warnings = []
    · rw [if_pos hw]
      dsimp only
      cases unresolved with
      | nil => exact ⟨lenient, h, .refl lenient⟩
      | cons d ds => exact ⟨_, rfl, .of_ne_nil hprefix (by simp)⟩
    · rw [if_neg hw]
      exact ⟨_, rfl, .of_ne_nil hprefix (by simp [hw])⟩

end Attempt

end Boundary

/-! ## Loads -/

/-- A base directory has no manifest, or one that can be read. -/
inductive Manifest.Readable (fs : FileSystem) (baseDir : Path) : Prop where
  | absent (h : fs.readText (baseDir.join ⟨fileName⟩) = .error .notFound)
  | wellFormed {text : String} {listing : Listing}
      (ht : fs.readText (baseDir.join ⟨fileName⟩) = .ok text) (hl : Listing.parse text = .ok listing)

theorem Manifest.Readable.load_ok {fs : FileSystem} {baseDir : Path} (h : Readable fs baseDir) :
    ∃ manifest, Manifest.load fs baseDir = .ok manifest := by
  unfold Manifest.load
  cases h with
  | absent h =>
    dsimp only
    rw [h]
    exact ⟨_, rfl⟩
  | wellFormed ht hl =>
    dsimp only
    rw [ht]
    dsimp only
    rw [hl]
    exact ⟨_, rfl⟩

namespace LoadRequest

/-- The directory that a request is about. -/
def directory (request : LoadRequest) (cwd : Path) : Path :=
  (Path.absolute? cwd request.baseDir).getD request.baseDir

/-- The references of a request, and those of its names that lead to no file. -/
def resolved (request : LoadRequest) (fs : FileSystem) : ReferenceSet × List String :=
  (ReferenceSet.empty fs.cwd (request.directory fs.cwd)).addAll fs request.references

def compiler (request : LoadRequest) (fs : FileSystem) (settings : Settings) : Compiler :=
  ⟨(request.resolved fs).1, settings.warningsAsErrors⟩

/-- The attempt that a load makes once its manifest is read. -/
def attempt (request : LoadRequest) (fs : FileSystem) (fuel : Nat) (settings : Settings)
    (manifest : Manifest) : Except Stall Boundary.Attempt :=
  Boundary.attempt fs fuel settings manifest (request.compiler fs settings)
    ((request.resolved fs).2.map Boundary.unresolvedReference) request.source

end LoadRequest

/-- What a load has to say when its module is there or not. -/
structure LoadOutcome.Accords (warningsAsErrors : Bool) (outcome : LoadOutcome) : Prop where
  present : outcome.hasModule = true ↔ Allow warningsAsErrors outcome.diagnostics
  compiled : outcome.boundary.compiled.isSome = outcome.hasModule
  lifecycle : outcome.boundary.lifecycle = if outcome.hasModule then .active else .created
  explained : outcome.hasModule = false → outcome.diagnostics ≠ []

namespace Boundary

/-- The outcome of a load whose attempt has ended. -/
def Attempt.made (a : Attempt) (settings : Settings) (id scriptId : Id) (baseDir : Path) :
    LoadOutcome :=
  ⟨make id baseDir (settings.maxMemoryBytes.map UInt64.toNat)
    (a.loaded.map fun (script, linked) => (⟨scriptId, script⟩, linked)), a.diagnostics⟩

variable {fs : FileSystem} {fuel : Nat} {settings : Settings} {manifest : Manifest} {id scriptId : Id}
  {request : LoadRequest} {outcome : LoadOutcome}

theorem load_eq (hd : fs.isDir request.baseDir = true)
    (hm : Manifest.load fs (request.directory fs.cwd) = .ok manifest) :
    load fs fuel settings id scriptId request =
      (request.attempt fs fuel settings manifest).map
        fun a => .ok (a.made settings id scriptId (request.directory fs.cwd)) := by
  unfold LoadRequest.directory at hm
  unfold load LoadRequest.attempt LoadRequest.compiler LoadRequest.resolved LoadRequest.directory
  rw [hd]
  dsimp only [Bool.not_true, Bool.false_eq_true, if_false]
  rw [hm]
  dsimp only
  cases attempt fs fuel settings manifest _ _ _ <;> rfl

/-- A load that is not refused has made its boundary of an attempt. -/
theorem load_made (hd : fs.isDir request.baseDir = true)
    (hm : Manifest.load fs (request.directory fs.cwd) = .ok manifest)
    (h : load fs fuel settings id scriptId request = .ok (.ok outcome)) :
    ∃ a, request.attempt fs fuel settings manifest = .ok a ∧
      outcome = a.made settings id scriptId (request.directory fs.cwd) := by
  rw [load_eq hd hm] at h
  cases ha : request.attempt fs fuel settings manifest with
  | error stall =>
    rw [ha] at h
    cases h
  | ok a =>
    rw [ha] at h
    cases h
    exact ⟨a, rfl, rfl⟩

/-- A load that makes a boundary has found the directory and read the manifest. -/
theorem load_attempted (h : load fs fuel settings id scriptId request = .ok (.ok outcome)) :
    fs.isDir request.baseDir = true ∧ ∃ manifest a,
      Manifest.load fs (request.directory fs.cwd) = .ok manifest ∧
        request.attempt fs fuel settings manifest = .ok a ∧
        outcome = a.made settings id scriptId (request.directory fs.cwd) := by
  have hd : fs.isDir request.baseDir = true := by
    unfold load at h
    split at h
    · cases h
    · next hd => simpa using hd
  refine ⟨hd, ?_⟩
  cases hm : Manifest.load fs (request.directory fs.cwd) with
  | ok manifest =>
    obtain ⟨a, ha, he⟩ := load_made hd hm h
    exact ⟨manifest, a, rfl, ha, he⟩
  | error e =>
    unfold LoadRequest.directory at hm
    unfold load at h
    rw [hd] at h
    dsimp only [Bool.not_true, Bool.false_eq_true, if_false] at h
    rw [hm] at h
    cases h

theorem made_hasModule (a : Attempt) (settings : Settings) (id scriptId : Id) (baseDir : Path) :
    (a.made settings id scriptId baseDir).hasModule = a.loaded.isSome := by
  obtain ⟨ds, loaded⟩ := a
  cases loaded <;> rfl

theorem made_accords {a : Attempt} (id scriptId : Id) (baseDir : Path)
    (ha : request.attempt fs fuel settings manifest = .ok a) :
    (a.made settings id scriptId baseDir).Accords settings.warningsAsErrors := by
  have hwarnings : ∀ d ∈ (request.resolved fs).2.map unresolvedReference, d.isError = false := by
    intro d hd
    obtain ⟨name, -, rfl⟩ := List.mem_map.mp hd
    rfl
  have hpresent : (a.made settings id scriptId baseDir).hasModule = true ↔
      Allow settings.warningsAsErrors a.diagnostics := by
    rw [made_hasModule]
    exact attempt_loaded_iff ha hwarnings
  refine ⟨hpresent, ?_, ?_, fun hnone he => ?_⟩
  · obtain ⟨ds, loaded⟩ := a
    cases loaded <;> rfl
  · obtain ⟨ds, loaded⟩ := a
    cases loaded <;> rfl
  · have hallow : Allow settings.warningsAsErrors a.diagnostics := by
      rw [show a.diagnostics = [] from he]
      exact ⟨nofun, fun _ => rfl⟩
    rw [hpresent.mpr hallow] at hnone
    cases hnone

section Stricter

variable {strict lenient : Attempt} {baseDir : Path}

theorem made_eq_of_loaded (hs : strict.Stricter lenient)
    (h : (strict.made settings id scriptId baseDir).hasModule = true) :
    strict.made settings id scriptId baseDir = lenient.made settings id scriptId baseDir := by
  rw [made_hasModule] at h
  rw [hs.of_loaded h]

/-- With warnings as errors, the module is there when there is nothing at all to warn of. -/
theorem made_present_iff (hs : strict.Stricter lenient)
    (hl : (lenient.made settings id scriptId baseDir).Accords false)
    (ha : (strict.made settings id scriptId baseDir).Accords true) :
    (strict.made settings id scriptId baseDir).hasModule = true ↔ lenient.diagnostics = [] := by
  constructor
  · intro h
    rw [← hs.of_loaded (made_hasModule strict _ _ _ _ ▸ h)]
    exact (ha.present.mp h).warnings rfl
  · intro h
    rw [hs.of_nil h]
    have hnone : (lenient.made settings id scriptId baseDir).diagnostics = [] := h
    exact hl.present.mpr ⟨by simp [hnone], fun hw => by cases hw⟩

end Stricter

/-- What a boundary is made with when its load has a module. -/
theorem load_linked {linked : Linked}
    (h : load fs fuel settings id scriptId request = .ok (.ok outcome))
    (hc : outcome.boundary.content = .active linked) :
    ∃ manifest script,
      (request.compiler fs settings).compile fs settings.optimization request.source = .ok script ∧
        Linked.link fuel ⟨fs, manifest, script.references⟩ outcome.boundary.maxMemoryBytes
          script.component = .ok (.ok linked) := by
  unfold load at h
  split at h
  · cases h
  · dsimp only at h
    split at h
    · cases h
    · split at h
      · cases h
      · next a ha =>
        cases h
        obtain ⟨ds, loaded⟩ := a
        cases loaded with
        | none => cases hc
        | some loaded =>
          cases hc
          exact ⟨_, _, attempt_linked ha rfl⟩

/-- A load from a directory whose manifest is absent or can be read is never refused. Unless its linking
runs out of steps it has an outcome, in which the module is there just when the diagnostics allow it. With
warnings as errors, it has the module just when there would be no diagnostics without, and then it is the
same; its diagnostics are always the first of those that there would be. -/
theorem module_iff_allowed (hd : fs.isDir request.baseDir = true)
    (hm : Manifest.Readable fs (request.directory fs.cwd)) (fuel : Nat) (settings : Settings)
    (id scriptId : Id) :
    (∀ e, load fs fuel settings id scriptId request ≠ .ok (.error e)) ∧
    (∀ stall, load fs fuel settings id scriptId request = .error stall → stall = .unfinished ∧
      ∃ manifest, Manifest.load fs (request.directory fs.cwd) = .ok manifest ∧
        LinkingStalls fs fuel settings manifest (request.compiler fs settings) request.source) ∧
    (∀ outcome, load fs fuel settings id scriptId request = .ok (.ok outcome) →
      outcome.Accords settings.warningsAsErrors) ∧
    ∀ lenient,
      load fs fuel { settings with warningsAsErrors := false } id scriptId request = .ok (.ok lenient) →
      ∃ strict,
        load fs fuel { settings with warningsAsErrors := true } id scriptId request = .ok (.ok strict) ∧
        (strict.hasModule = true ↔ lenient.diagnostics = []) ∧
        strict.diagnostics <+: lenient.diagnostics ∧
        (strict.hasModule = true → strict = lenient) := by
  obtain ⟨manifest, hm⟩ := hm.load_ok
  refine ⟨?never, ?stalls, ?accords, ?strict⟩
  case never =>
    intro e h
    rw [load_eq hd hm] at h
    cases ha : request.attempt fs fuel settings manifest <;> (rw [ha] at h; cases h)
  case stalls =>
    intro stall h
    rw [load_eq hd hm] at h
    cases ha : request.attempt fs fuel settings manifest with
    | ok a =>
      rw [ha] at h
      cases h
    | error stall' =>
      rw [ha] at h
      cases h
      obtain ⟨hs, hl⟩ := attempt_stall ha
      exact ⟨hs, manifest, hm, hl⟩
  case accords =>
    intro outcome h
    obtain ⟨a, ha, rfl⟩ := load_made hd hm h
    exact made_accords id scriptId _ ha
  case strict =>
    intro lenient h
    obtain ⟨a, ha, rfl⟩ := load_made hd hm h
    obtain ⟨strict, hs, hstricter⟩ := attempt_strict ha
    refine ⟨_, (load_eq hd hm).trans (congrArg (Except.map _) hs), ?_, hstricter.diagnostics,
      made_eq_of_loaded hstricter⟩
    exact made_present_iff hstricter (made_accords id scriptId _ ha) (made_accords id scriptId _ hs)

/-! ## A reference that leads nowhere -/

/-- A file system with a directory that has no manifest. -/
def strayFiles : FileSystem := ⟨⟨"/"⟩, [(["base"], .dir)]⟩

/-- An empty script in the directory, with a reference to no file. -/
def strayRequest : LoadRequest := ⟨⟨"/base"⟩, "(component)", ["stray"]⟩

theorem stray_reference_refused_by_strict :
    ∃ lenient strict,
      load strayFiles 1000 { Settings.standard with warningsAsErrors := false } ⟨0⟩ ⟨1⟩ strayRequest =
        .ok (.ok lenient) ∧
      lenient.hasModule = true ∧ lenient.diagnostics = [unresolvedReference "stray"] ∧
      load strayFiles 1000 { Settings.standard with warningsAsErrors := true } ⟨0⟩ ⟨1⟩ strayRequest =
        .ok (.ok strict) ∧
      strict.hasModule = false ∧ strict.diagnostics <+: [unresolvedReference "stray"] := by
  have hlenient : ∃ lenient,
      load strayFiles 1000 { Settings.standard with warningsAsErrors := false } ⟨0⟩ ⟨1⟩ strayRequest =
        .ok (.ok lenient) ∧
      lenient.hasModule = true ∧ lenient.diagnostics = [unresolvedReference "stray"] :=
    ⟨_, rfl, rfl, rfl⟩
  have hdir : strayFiles.isDir strayRequest.baseDir = true := rfl
  have habsent : Manifest.Readable strayFiles (strayRequest.directory strayFiles.cwd) := .absent rfl
  obtain ⟨lenient, hl, hmodule, hds⟩ := hlenient
  obtain ⟨strict, hs, hiff, hprefix, -⟩ :=
    (module_iff_allowed hdir habsent 1000 Settings.standard ⟨0⟩ ⟨1⟩).2.2.2 lenient hl
  refine ⟨lenient, strict, hl, hmodule, hds, hs, ?_, hds ▸ hprefix⟩
  rw [← Bool.not_eq_true, hiff, hds]
  exact List.cons_ne_nil _ _

end Boundary

end ComponentHost
