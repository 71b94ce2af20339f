import ComponentHost.Compiler

/-! # What diagnostics allow

A compilation gives a script exactly when its diagnostics allow one: no error is among them and, where
warnings are errors, there are none at all. -/
set_option autoImplicit false

namespace ComponentHost

namespace Diagnostic

/-- No diagnostic is an error and, where warnings are errors, there is none. -/
structure Allow (warningsAsErrors : Bool) (ds : List Diagnostic) : Prop where
  errors : ∀ d ∈ ds, d.isError = false
  warnings : warningsAsErrors = true → ds = []

variable {warningsAsErrors : Bool} {ds ds' : List Diagnostic}

theorem hasErrors_eq_false_iff : hasErrors ds = false ↔ ∀ d ∈ ds, d.isError = false := by
  simp [hasErrors]

theorem allow_append :
    Allow warningsAsErrors (ds ++ ds') ↔ Allow warningsAsErrors ds ∧ Allow warningsAsErrors ds' := by
  constructor
  · rintro ⟨he, hw⟩
    rw [List.forall_mem_append] at he
    rw [List.append_eq_nil_iff] at hw
    exact ⟨⟨he.1, fun h => (hw h).1⟩, he.2, fun h => (hw h).2⟩
  · rintro ⟨h, h'⟩
    refine ⟨List.forall_mem_append.mpr ⟨h.errors, h'.errors⟩, fun hs => ?_⟩
    rw [h.warnings hs, h'.warnings hs, List.append_nil]

theorem not_allow_singleton {d : Diagnostic} (hd : d.isError = true) : ¬ Allow warningsAsErrors [d] := by
  intro h
  rw [h.errors d List.mem_cons_self] at hd
  cases hd

/-- Where all are errors and none is, there is none. -/
theorem eq_nil_of_isError (ht : ∀ d ∈ ds, d.isError = true) (hf : ∀ d ∈ ds, d.isError = false) : ds = [] :=
  List.eq_nil_iff_forall_not_mem.mpr fun d hd => Bool.false_ne_true ((hf d hd).symm.trans (ht d hd))

theorem allow_of_isError (h : ∀ d ∈ ds, d.isError = true) : Allow warningsAsErrors ds ↔ ds = [] := by
  constructor
  · exact fun ha => eq_nil_of_isError h ha.errors
  · rintro rfl
    exact ⟨nofun, fun _ => rfl⟩

end Diagnostic

open Diagnostic

/-! ## Compiling -/

namespace Compiler

variable {compiler : Compiler} {fs : FileSystem} {level : OptimizationLevel} {source : String}
  {component : Component} {loads : List (Path × Except Component.Fault Component)}

theorem faultDiagnostic_isError (fault : Component.Fault) : (faultDiagnostic fault).isError = true := by
  cases fault <;> rfl

/-- The test that a compiler makes of its diagnostics. -/
theorem allow_iff {warningsAsErrors : Bool} {ds : List Diagnostic} :
    (hasErrors ds || (warningsAsErrors && !ds.isEmpty)) = false ↔ Allow warningsAsErrors ds := by
  rw [Bool.or_eq_false_iff, hasErrors_eq_false_iff, Bool.and_eq_false_imp, Bool.not_eq_false',
    List.isEmpty_iff]
  exact ⟨fun h => ⟨h.1, h.2⟩, fun h => ⟨h.errors, h.warnings⟩⟩

theorem finish_ok {script : Script} (h : compiler.finish level component loads = .ok script) :
    Allow compiler.warningsAsErrors script.warnings := by
  unfold finish at h
  dsimp only at h
  split at h
  · cases h
  · next hd =>
    cases h
    exact allow_iff.mp (Bool.eq_false_iff.mpr hd)

theorem finish_error {e : CompileError} (h : compiler.finish level component loads = .error e) :
    ¬ Allow compiler.warningsAsErrors e.diagnostics := by
  unfold finish at h
  dsimp only at h
  split at h
  · next hd =>
    cases h
    intro ha
    rw [allow_iff.mpr ha] at hd
    cases hd
  · cases h

theorem compile_ok {script : Script} (h : compiler.compile fs level source = .ok script) :
    Allow compiler.warningsAsErrors script.warnings := by
  unfold compile at h
  dsimp only at h
  split at h
  · cases h
  · split at h
    · cases h
    · exact finish_ok h

theorem compile_error {e : CompileError} (h : compiler.compile fs level source = .error e) :
    ¬ Allow compiler.warningsAsErrors e.diagnostics := by
  unfold compile at h
  dsimp only at h
  split at h
  · cases h
    exact not_allow_singleton rfl
  · split at h
    · next fault _ =>
      cases h
      exact not_allow_singleton (faultDiagnostic_isError fault)
    · exact finish_error h

/-- What a strict compiler makes of what a lenient one does. -/
def stricten : Except CompileError Script → Except CompileError Script
  | .error e => .error e
  | .ok script => if script.warnings = [] then .ok script else .error ⟨script.warnings⟩

theorem compile_strict (references : ReferenceSet) (fs : FileSystem) (level : OptimizationLevel)
    (source : String) :
    compile ⟨references, true⟩ fs level source = stricten (compile ⟨references, false⟩ fs level source) := by
  unfold compile
  dsimp only
  split
  · rfl
  · split
    · rfl
    · unfold finish
      dsimp only
      -- the diagnostics are the same, only the test is another
      generalize failures _ ++ unresolved _ _ ++ unused _ _ = ds
      cases hasErrors ds <;> cases ds <;> rfl

end Compiler

end ComponentHost
