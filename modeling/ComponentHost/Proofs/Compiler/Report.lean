import ComponentHost.Proofs.Boundary.Unused
import ComponentHost.Proofs.Text.Blank

/-! # What a compilation reports

The report of a compilation is fixed by three rules: for references whose files do not load, for imports that
no reference exports, and for references that export no import. Each rule speaks of every item of a list that
it applies to, once and in order. The script is accepted when the rules that report errors say nothing and,
where warnings are errors, no rule does. -/
set_option autoImplicit false

namespace ComponentHost

namespace Diagnostic

variable {α : Type} {rule : α → Diagnostic → Prop} {as : List α} {ds ds' : List Diagnostic}

/-- What a rule reports of the items of a list: one diagnostic for each that it speaks of, in their order. -/
inductive Collects (rule : α → Diagnostic → Prop) : List α → List Diagnostic → Prop where
  | nil : Collects rule [] []
  | reported {a : α} {d : Diagnostic} {as : List α} {ds : List Diagnostic} (ha : rule a d)
      (h : Collects rule as ds) : Collects rule (a :: as) (d :: ds)
  | silent {a : α} {as : List α} {ds : List Diagnostic} (ha : ∀ d, ¬ rule a d)
      (h : Collects rule as ds) : Collects rule (a :: as) ds

theorem collects_filterMap {f : α → Option Diagnostic} (hf : ∀ a d, rule a d ↔ f a = some d)
    (as : List α) : Collects rule as (as.filterMap f) := by
  induction as with
  | nil => exact .nil
  | cons a as ih =>
    cases ha : f a with
    | none =>
      rw [List.filterMap_cons_none ha]
      refine .silent (fun d hd => ?_) ih
      rw [(hf a d).mp hd] at ha
      cases ha
    | some d =>
      rw [List.filterMap_cons_some ha]
      exact .reported ((hf a d).mpr ha) ih

/-- What a rule says of the items that others are turned into, it says of those. -/
theorem Collects.of_filterMap {β : Type} {rule' : β → Diagnostic → Prop} {g : α → Option β}
    (h : Collects rule' (as.filterMap g) ds) (hg : ∀ a d, rule a d ↔ ∃ b, g a = some b ∧ rule' b d) :
    Collects rule as ds := by
  induction as generalizing ds with
  | nil =>
    cases h
    exact .nil
  | cons a as ih =>
    cases ha : g a with
    | none =>
      rw [List.filterMap_cons_none ha] at h
      refine .silent (fun d hd => ?_) (ih h)
      obtain ⟨b, hb, -⟩ := (hg a d).mp hd
      cases ha.symm.trans hb
    | some b =>
      rw [List.filterMap_cons_some ha] at h
      cases h with
      | reported hb h => exact .reported ((hg a _).mpr ⟨b, ha, hb⟩) (ih h)
      | silent hb h =>
        refine .silent (fun d hd => ?_) (ih h)
        obtain ⟨b', hb', hd'⟩ := (hg a d).mp hd
        cases ha.symm.trans hb'
        exact hb d hd'

/-- A rule that has one thing to say of an item collects one report. -/
theorem Collects.unique (hrule : ∀ a d d', rule a d → rule a d' → d = d') (h : Collects rule as ds)
    (h' : Collects rule as ds') : ds = ds' := by
  induction h generalizing ds' with
  | nil =>
    cases h'
    rfl
  | reported ha _ ih =>
    cases h' with
    | reported ha' h' => rw [hrule _ _ _ ha ha', ih h']
    | silent ha' _ => exact absurd ha (ha' _)
  | silent ha _ ih =>
    cases h' with
    | reported ha' _ => exact absurd ha' (ha _)
    | silent _ h' => exact ih h'

theorem Collects.eq_nil_iff (h : Collects rule as ds) : ds = [] ↔ ∀ a ∈ as, ∀ d, ¬ rule a d := by
  induction h with
  | nil => simp
  | reported ha _ _ =>
    refine iff_of_false (List.cons_ne_nil _ _) fun hnone => ?_
    exact hnone _ List.mem_cons_self _ ha
  | silent ha _ ih =>
    rw [List.forall_mem_cons, ih]
    exact (and_iff_right ha).symm

theorem Collects.forall_mem {P : Diagnostic → Prop} (h : Collects rule as ds) (hrule : ∀ a d, rule a d → P d) :
    ∀ d ∈ ds, P d := by
  induction h with
  | nil => exact nofun
  | reported ha _ ih => exact List.forall_mem_cons.mpr ⟨hrule _ _ ha, ih⟩
  | silent _ _ ih => exact ih

end Diagnostic

open Diagnostic

namespace Compiler

/-! ## The rules -/

/-- A source that is not blank and holds a component. -/
structure Reads (source : String) (component : Component) : Prop where
  notBlank : ∃ c ∈ source.toList, Text.isBlank c = false
  parses : Component.parse (Text.trim source) = .ok component

/-- The file of a reference does not load. -/
def CannotLoad (fs : FileSystem) (path : Path) (d : Diagnostic) : Prop :=
  ∃ fault, Component.load fs path = .error fault ∧
    d = .error s!"reference \x60{path.text}\x60 could not be loaded: {fault.message}"

/-- No reference that loads exports a name. -/
def Unprovided (fs : FileSystem) (paths : List Path) (name : String) (d : Diagnostic) : Prop :=
  (∀ path ∈ paths, ∀ c, Component.load fs path = .ok c → name ∉ c.exportNames) ∧
    d = .error s!"unresolved import \x60{name}\x60: no reference exports it"

/-- A reference loads and exports no import of a component. -/
def Unneeded (fs : FileSystem) (component : Component) (path : Path) (d : Diagnostic) : Prop :=
  ∃ c, Component.load fs path = .ok c ∧ (∀ name ∈ component.importNames, name ∉ c.exportNames) ∧
    d = unusedReference path

/-- The report on a component: references in the order of their set, imports in that of the component. -/
def Reports (compiler : Compiler) (fs : FileSystem) (component : Component) (ds : List Diagnostic) : Prop :=
  ∃ faults missing idle, ds = faults ++ missing ++ idle ∧
    Collects (CannotLoad fs) compiler.references.paths faults ∧
    Collects (Unprovided fs compiler.references.paths) component.importNames missing ∧
    Collects (Unneeded fs component) compiler.references.paths idle

/-- What a component needs to be accepted. -/
structure Accepts (compiler : Compiler) (fs : FileSystem) (component : Component) : Prop where
  loads : ∀ path ∈ compiler.references.paths, ∃ c, Component.load fs path = .ok c
  provided : ∀ name ∈ component.importNames, ∃ path ∈ compiler.references.paths, ∃ c,
    Component.load fs path = .ok c ∧ name ∈ c.exportNames
  needed : compiler.warningsAsErrors = true → ∀ path ∈ compiler.references.paths, ∃ c,
    Component.load fs path = .ok c ∧ ∃ name ∈ component.importNames, name ∈ c.exportNames

variable {compiler : Compiler} {fs : FileSystem} {level : OptimizationLevel} {source : String}
  {component : Component} {paths : List Path}

/-! ## What is collected -/

theorem exports_iff {r : LoadedReference} {name : String} :
    r.exports name = true ↔ name ∈ r.component.exportNames := by
  rw [LoadedReference.exports, List.contains_eq_mem, decide_eq_true_eq]

theorem failures_collects (fs : FileSystem) (paths : List Path) :
    Collects (CannotLoad fs) paths (failures (paths.map fun path => (path, Component.load fs path))) := by
  unfold failures
  rw [List.filterMap_map]
  refine collects_filterMap (fun path d => ?_) paths
  unfold CannotLoad
  rw [Function.comp_apply]
  cases Component.load fs path with
  | ok c => simp
  | error fault => simp [eq_comm]

/-- A rule that speaks of the items that pass a test collects what it says of these. -/
theorem collects_map_filter {α : Type} {rule : α → Diagnostic → Prop} {test : α → Bool} {f : α → Diagnostic}
    (hf : ∀ a d, rule a d ↔ test a = true ∧ d = f a) (as : List α) :
    Collects rule as ((as.filter test).map f) := by
  rw [← List.filterMap_eq_map, List.filterMap_filter]
  refine collects_filterMap (fun a d => ?_) as
  rw [hf]
  cases test a <;> simp [eq_comm]

theorem unresolved_collects (fs : FileSystem) (component : Component) (paths : List Path) :
    Collects (Unprovided fs paths) component.importNames (unresolved component (loadedFrom fs paths)) := by
  refine collects_map_filter (fun name d => and_congr_left' ?_) component.importNames
  rw [Bool.not_eq_true', List.any_eq_false]
  constructor
  · intro h r hr hx
    obtain ⟨hp, hl⟩ := mem_loadedFrom.mp hr
    exact h r.path hp r.component hl (exports_iff.mp hx)
  · intro h path hp c hl hx
    exact h ⟨path, c⟩ (mem_loadedFrom.mpr ⟨hp, hl⟩) (exports_iff.mpr hx)

theorem unused_collects (fs : FileSystem) (component : Component) (paths : List Path) :
    Collects (Unneeded fs component) paths (unused component (loadedFrom fs paths)) := by
  have hloaded : Collects
      (fun (r : LoadedReference) d =>
        (∀ name ∈ component.importNames, name ∉ r.component.exportNames) ∧ d = unusedReference r.path)
      (loadedFrom fs paths) (unused component (loadedFrom fs paths)) := by
    refine collects_map_filter (fun r d => and_congr_left' ?_) (loadedFrom fs paths)
    rw [Bool.not_eq_true', List.any_eq_false]
    exact forall₂_congr fun name _ => not_congr exports_iff.symm
  rw [loadedFrom_eq fs paths] at hloaded ⊢
  refine hloaded.of_filterMap fun path d => ?_
  unfold Unneeded
  cases Component.load fs path with
  | error fault => simp [Except.toOption]
  | ok c => simp [Except.toOption]

/-! ## What a report comes to -/

theorem Reports.unique {ds ds' : List Diagnostic} (h : compiler.Reports fs component ds)
    (h' : compiler.Reports fs component ds') : ds = ds' := by
  obtain ⟨faults, missing, idle, rfl, hf, hm, hi⟩ := h
  obtain ⟨faults', missing', idle', rfl, hf', hm', hi'⟩ := h'
  have hfaults : faults = faults' := by
    refine hf.unique ?_ hf'
    rintro path _ _ ⟨fault, hl, rfl⟩ ⟨fault', hl', rfl⟩
    cases hl.symm.trans hl'
    rfl
  have hmissing : missing = missing' := by
    refine hm.unique ?_ hm'
    rintro name _ _ ⟨-, rfl⟩ ⟨-, rfl⟩
    rfl
  have hidle : idle = idle' := by
    refine hi.unique ?_ hi'
    rintro path _ _ ⟨c, hl, -, rfl⟩ ⟨c', hl', -, rfl⟩
    rfl
  rw [hfaults, hmissing, hidle]

/-- The diagnostics of a compilation, whether it has a script or not. -/
def report : Except CompileError Script → List Diagnostic
  | .ok script => script.warnings
  | .error e => e.diagnostics

theorem compile_of_reads (hr : Reads source component) (compiler : Compiler) (fs : FileSystem)
    (level : OptimizationLevel) :
    compiler.compile fs level source = compiler.finish level component
      (compiler.references.paths.map fun path => (path, Component.load fs path)) := by
  unfold compile
  dsimp only
  rw [if_neg (Text.trim_not_isEmpty hr.notBlank), hr.parses]

theorem finish_reports (compiler : Compiler) (fs : FileSystem) (level : OptimizationLevel)
    (component : Component) :
    compiler.Reports fs component (report (compiler.finish level component
      (compiler.references.paths.map fun path => (path, Component.load fs path)))) := by
  refine ⟨_, _, _, ?_, failures_collects fs compiler.references.paths,
    unresolved_collects fs component compiler.references.paths,
    unused_collects fs component compiler.references.paths⟩
  unfold finish
  dsimp only
  rw [← loadedFrom]
  split <;> rfl

theorem compile_reports_iff (hr : Reads source component) {ds : List Diagnostic} :
    report (compiler.compile fs level source) = ds ↔ compiler.Reports fs component ds := by
  have h := finish_reports compiler fs level component
  rw [compile_of_reads hr]
  constructor
  · rintro rfl
    exact h
  · exact h.unique

theorem finish_ok_iff {loads : List (Path × Except Component.Fault Component)} :
    (∃ script, compiler.finish level component loads = .ok script) ↔
      Allow compiler.warningsAsErrors (report (compiler.finish level component loads)) := by
  cases hf : compiler.finish level component loads with
  | ok script => exact iff_of_true ⟨script, rfl⟩ (finish_ok hf)
  | error e => exact iff_of_false nofun (finish_error hf)

/-- A report allows a script just when all references load, every import is provided, and every reference is
needed where warnings are errors. -/
theorem Reports.allow_iff {ds : List Diagnostic} (h : compiler.Reports fs component ds) :
    Allow compiler.warningsAsErrors ds ↔ compiler.Accepts fs component := by
  obtain ⟨faults, missing, idle, rfl, hf, hm, hi⟩ := h
  have hfaults : Allow compiler.warningsAsErrors faults ↔
      ∀ path ∈ compiler.references.paths, ∃ c, Component.load fs path = .ok c := by
    rw [allow_of_isError (hf.forall_mem fun _ _ ⟨_, _, he⟩ => he ▸ rfl), hf.eq_nil_iff]
    refine forall₂_congr fun path _ => ?_
    cases hl : Component.load fs path with
    | ok c => exact iff_of_true (fun d ⟨fault, hfault, _⟩ => nomatch hl.symm.trans hfault) ⟨c, rfl⟩
    | error fault => exact iff_of_false (fun hnone => hnone _ ⟨fault, hl, rfl⟩) nofun
  have hmissing : Allow compiler.warningsAsErrors missing ↔
      ∀ name ∈ component.importNames, ∃ path ∈ compiler.references.paths, ∃ c,
        Component.load fs path = .ok c ∧ name ∈ c.exportNames := by
    rw [allow_of_isError (hm.forall_mem fun _ _ ⟨_, he⟩ => he ▸ rfl), hm.eq_nil_iff]
    refine forall₂_congr fun name _ => ?_
    constructor
    · intro hnone
      by_contra hprovided
      push Not at hprovided
      exact hnone _ ⟨hprovided, rfl⟩
    · rintro ⟨path, hp, c, hl, hx⟩ d ⟨hnone, -⟩
      exact hnone path hp c hl hx
  have hidle : Allow compiler.warningsAsErrors idle ↔ (compiler.warningsAsErrors = true → idle = []) := by
    refine ⟨Allow.warnings, fun hw => ⟨?_, hw⟩⟩
    exact hi.forall_mem fun _ _ ⟨_, _, _, he⟩ => he ▸ rfl
  rw [allow_append, allow_append, hfaults, hmissing, hidle, hi.eq_nil_iff]
  constructor
  · rintro ⟨⟨hloads, hprovided⟩, hneeded⟩
    refine ⟨hloads, hprovided, fun hw path hp => ?_⟩
    obtain ⟨c, hl⟩ := hloads path hp
    refine ⟨c, hl, ?_⟩
    by_contra hnone
    push Not at hnone
    exact hneeded hw path hp _ ⟨c, hl, hnone, rfl⟩
  · rintro ⟨hloads, hprovided, hneeded⟩
    refine ⟨⟨hloads, hprovided⟩, fun hw path hp d ⟨c, hl, hnone, _⟩ => ?_⟩
    obtain ⟨c', hl', name, hn, hx⟩ := hneeded hw path hp
    cases hl.symm.trans hl'
    exact hnone name hn hx

theorem compile_ok_iff (hr : Reads source component) :
    (∃ script, compiler.compile fs level source = .ok script) ↔ compiler.Accepts fs component := by
  rw [compile_of_reads hr, finish_ok_iff]
  exact (finish_reports compiler fs level component).allow_iff

/-- A source that holds no component has one error to its report. -/
theorem compile_of_not_reads (hr : ∀ component, ¬ Reads source component) (compiler : Compiler)
    (fs : FileSystem) (level : OptimizationLevel) :
    ∃ d, d.isError = true ∧ compiler.compile fs level source = .error ⟨[d]⟩ := by
  unfold compile
  dsimp only
  split
  · exact ⟨_, rfl, rfl⟩
  · next hne =>
    cases hp : Component.parse (Text.trim source) with
    | error fault => exact ⟨_, faultDiagnostic_isError fault, rfl⟩
    | ok component =>
      rw [Text.trim_isEmpty_iff] at hne
      push Not at hne
      obtain ⟨c, hc, hb⟩ := hne
      exact absurd ⟨⟨c, hc, Bool.eq_false_iff.mpr hb⟩, hp⟩ (hr component)

/-- A source that holds a component is compiled with just the report that the rules fix, and gives a script if
and only if the component is accepted; any other source has one error to its report. No warning of a script is
an error. To take warnings for errors turns a script with warnings into a failure with the same report and
changes nothing else. -/
theorem compile_decides (compiler : Compiler) (fs : FileSystem) (level : OptimizationLevel) (source : String) :
    (∀ component, Reads source component →
      (∀ ds, report (compiler.compile fs level source) = ds ↔ compiler.Reports fs component ds) ∧
      ((∃ script, compiler.compile fs level source = .ok script) ↔ compiler.Accepts fs component)) ∧
    ((∀ component, ¬ Reads source component) →
      ∃ d, d.isError = true ∧ compiler.compile fs level source = .error ⟨[d]⟩) ∧
    (∀ script, compiler.compile fs level source = .ok script → hasErrors script.warnings = false) ∧
    (∀ script, compile ⟨compiler.references, false⟩ fs level source = .ok script → script.warnings ≠ [] →
      compile ⟨compiler.references, true⟩ fs level source = .error ⟨script.warnings⟩) ∧
    ((∀ script, compile ⟨compiler.references, false⟩ fs level source = .ok script → script.warnings = []) →
      compile ⟨compiler.references, true⟩ fs level source =
        compile ⟨compiler.references, false⟩ fs level source) := by
  refine ⟨fun component hr => ⟨fun ds => compile_reports_iff hr, compile_ok_iff hr⟩, fun hr => ?unread,
    fun script h => ?warnings, fun script h hw => ?strict, fun hnone => ?same⟩
  case unread => exact compile_of_not_reads hr compiler fs level
  case warnings => exact hasErrors_eq_false_iff.mpr (compile_ok h).errors
  case strict => rw [compile_strict, h, stricten, if_neg hw]
  case same =>
    rw [compile_strict]
    cases h : compile ⟨compiler.references, false⟩ fs level source with
    | error e => rfl
    | ok script => rw [stricten, if_pos (hnone script h)]

/-- A script that imports the first of two components, compiled against some of them. -/
def compileNested (warningsAsErrors : Bool) (paths : List Path) : Except CompileError Script :=
  compile ⟨⟨⟨"/"⟩, paths⟩, warningsAsErrors⟩ Boundary.nestedFiles .release (Boundary.nestedRequest []).source

/-- A reference that exports no import of the script is reported, and is an error where warnings are. -/
theorem unused_reference_refused_by_strict :
    (∃ component, Reads (Boundary.nestedRequest []).source component ∧
      Reports ⟨⟨⟨"/"⟩, [⟨"/b"⟩, ⟨"/d"⟩]⟩, false⟩ Boundary.nestedFiles component [unusedReference ⟨"/d"⟩]) ∧
    compileNested true [⟨"/b"⟩, ⟨"/d"⟩] = .error ⟨[unusedReference ⟨"/d"⟩]⟩ := by
  have heval : (compileNested false [⟨"/b"⟩, ⟨"/d"⟩]).toOption.map Script.warnings =
      some [unusedReference ⟨"/d"⟩] := by
    decide +kernel
  obtain ⟨script, hscript, hw⟩ := Option.map_eq_some_iff.mp heval
  have h := ok_of_toOption hscript
  obtain ⟨hreads, hunread, -, hstrict, -⟩ :=
    compile_decides ⟨⟨⟨"/"⟩, [⟨"/b"⟩, ⟨"/d"⟩]⟩, false⟩ Boundary.nestedFiles .release
      (Boundary.nestedRequest []).source
  refine ⟨?reads, ?strict⟩
  case reads =>
    by_contra hnone
    push Not at hnone
    have hunreadable : ∀ component, ¬ Reads (Boundary.nestedRequest []).source component := by
      intro component hr
      refine hnone component hr (((hreads component hr).1 _).mp ?_)
      rw [← compileNested, h]
      exact hw
    obtain ⟨d, -, he⟩ := hunread hunreadable
    cases h.symm.trans he
  case strict =>
    rw [← hw]
    exact hstrict script h (hw ▸ List.cons_ne_nil _ _)

end Compiler

end ComponentHost
