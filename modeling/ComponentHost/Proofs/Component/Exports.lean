import ComponentHost.Proofs.Component.Names
import ComponentHost.Proofs.Entries

/-! # What accepted components export and call

The functions that an accepted component exports are its own, each with the type that it is exported with,
and a name leads to one of them only. The functions of its imports that it calls are those that the types of
the imports declare. -/
set_option autoImplicit false

namespace ComponentHost.Component

/-- The type of an imported thing has a function of a type inside, where these names lead. -/
inductive ExternType.Has : ExternType → List String → Signature → Prop where
  | func (type : Signature) : Has (.func type) [] type
  | member {members : List (String × ExternType)} {name : String} {t : ExternType} {names : List String}
      {type : Signature} (hm : (name, t) ∈ members) (h : t.Has names type) :
      Has (.interface members) (name :: names) type

/-- Imports have a function of a type where these names lead. -/
def Imported (imports : List (String × ExternType)) (names : List String) (type : Signature) : Prop :=
  ∃ name t rest, names = name :: rest ∧ (name, t) ∈ imports ∧ t.Has rest type

/-- A thing whose functions have the types that they are listed with, those of imports the types that the
imports give them, and whose members have names apart. -/
inductive Extern.Sound (imports : List (String × ExternType)) : Extern → Prop where
  | imported {names : List String} {type : Signature} (h : Imported imports names type) :
      Sound imports (.func (.imported names) type)
  | lifted (lift : Lift) : Sound imports (.func (.lifted lift) lift.type)
  | interface {members : List (String × Extern)} (hn : (members.map Prod.fst).Nodup)
      (hm : ∀ e ∈ members, e.2.Sound imports) : Sound imports (.interface members)
  | module : Sound imports .module
  | component : Sound imports .component
  | type : Sound imports .type

/-- What is sound stays so when there are more imports. -/
theorem Extern.Sound.mono {imports imports' : List (String × ExternType)} {e : Extern} (h : e.Sound imports)
    (hs : imports ⊆ imports') : e.Sound imports' := by
  induction h with
  | imported h =>
    obtain ⟨name, t, rest, hn, hm, ht⟩ := h
    exact .imported ⟨name, t, rest, hn, hs hm, ht⟩
  | lifted lift => exact .lifted lift
  | interface hn _ ih => exact .interface hn ih
  | module => exact .module
  | component => exact .component
  | type => exact .type

theorem Extern.ofTypes_names (names : List String) (types : List (String × ExternType)) :
    (Extern.ofTypes names types).map Prod.fst = types.map Prod.fst := by
  induction types with
  | nil => rfl
  | cons t types ih => rw [Extern.ofTypes, List.map_cons, List.map_cons, ih]

/-- A function of a component that is exported where it is run is a function of its own. -/
theorem Extern.eq_lifted_of_isRunnable {imports : List (String × ExternType)} {callee : Callee}
    {type : Signature} (h : (Extern.func callee type).Sound imports) (hr : (Extern.func callee type).isRunnable = true) :
    ∃ lift : Lift, callee = .lifted lift ∧ lift.type = type := by
  cases h with
  | imported => cases hr
  | lifted lift => exact ⟨lift, rfl, rfl⟩

theorem Extern.isRunnable_of_mem {members : List (String × Extern)} (h : areRunnable members = true)
    {e : String × Extern} (he : e ∈ members) : e.2.isRunnable = true := by
  induction members with
  | nil => exact absurd he List.not_mem_nil
  | cons member members ih =>
    obtain ⟨hfirst, hrest⟩ := (Bool.and_eq_true _ _).mp h
    rcases List.mem_cons.mp he with rfl | he
    · exact hfirst
    · exact ih hrest he

/-! ## Things in a scope -/

namespace Scope

section Types

variable {imports : List (String × ExternType)}

mutual

/-- What the import of a type stands for is sound where the imports have all functions of the type. -/
theorem externType_sound (scope : Scope) : (item : Wat.Item Nat) →
    Yields (scope.externType item) fun t => ∀ names,
      (∀ rest type, t.Has rest type → Imported imports (names ++ rest) type) →
      (Extern.ofType names t).Sound imports
  | .func use => by
    rw [externType]
    refine .bind fun type _ => .ok fun names h => .imported ?_
    simpa using h [] type (.func type)
  | .interface exports => by
    rw [externType]
    refine .bind fun types ht => .bind fun _ hn => .ok fun names h => ?_
    have hnodup : ((Extern.ofTypes names types).map Prod.fst).Nodup := by
      rw [Extern.ofTypes_names]
      exact (checkNames_ok hn).1
    exact .interface hnodup (externTypes_sound scope exports types ht names
      fun name t rest type hm ht => h (name :: rest) type (.member hm ht))
  | .module => by
    rw [externType]
    exact .ok fun _ _ => .module
  | .component => by
    rw [externType]
    exact .ok fun _ _ => .component
  | .type => by
    rw [externType]
    exact .ok fun _ _ => .type

theorem externTypes_sound (scope : Scope) : (items : List (String × Wat.Item Nat)) →
    Yields (scope.externTypes items) fun types => ∀ names,
      (∀ name t rest type, (name, t) ∈ types → t.Has rest type → Imported imports (names ++ name :: rest) type) →
      ∀ e ∈ Extern.ofTypes names types, e.2.Sound imports
  | [] => by
    rw [externTypes]
    exact .ok fun _ _ _ he => absurd he List.not_mem_nil
  | (name, item) :: rest => by
    rw [externTypes]
    refine .bind fun t ht => .bind fun types hts => .ok fun names h e he => ?_
    rw [Extern.ofTypes] at he
    rcases List.mem_cons.mp he with rfl | he
    · refine externType_sound scope item t ht _ fun inner type hin => ?_
      rw [List.append_assoc]
      exact h name t inner type List.mem_cons_self hin
    · exact externTypes_sound scope rest types hts names
        (fun name t inner type hm => h name t inner type (List.mem_cons_of_mem _ hm)) e he

end

end Types

theorem lift_type {scope : Scope} {type : Signature} {func : Nat} {os : List (Wat.CallOption Nat)}
    {lift : Lift} (h : scope.lift type func os = .ok lift) : lift.type = type := by
  have yields : Yields (scope.lift type func os) fun lift => lift.type = type := by
    unfold Scope.lift
    refine .bind fun options _ => .bind fun _ _ => .bind fun _ _ => .bind fun _ _ => .bind fun _ _ => ?_
    split
    · exact .ok rfl
    · exact .bind fun _ _ => .bind fun _ _ => .ok rfl
  exact yields lift h

/-- The things in a scope are sound, and so is what its steps lower; and its exports have names apart. -/
structure Sound (scope : Scope) : Prop where
  names : (scope.exports.map Prod.fst).Nodup
  exports : ∀ e ∈ scope.exports, e.2.Sound scope.imports
  funcs : ∀ f ∈ scope.funcs, (Extern.func f.1 f.2).Sound scope.imports
  instances : ∀ members ∈ scope.instances, (Extern.interface members).Sound scope.imports
  lowers : ∀ callee type, scope.Lowers callee type → (Extern.func callee type).Sound scope.imports

variable {scope scope' : Scope} {e : Extern}

theorem Alike.sound (ha : scope.Alike scope') (h : scope.Sound) : scope'.Sound where
  names := ha.exports ▸ h.names
  exports := ha.imports ▸ ha.exports ▸ h.exports
  funcs := ha.imports ▸ ha.funcs ▸ h.funcs
  instances := ha.imports ▸ ha.instances ▸ h.instances
  lowers := by
    intro callee type hl
    rw [ha.imports]
    rcases ha.lowers callee type hl with hl | hm
    · exact h.lowers callee type hl
    · exact h.funcs _ hm

namespace Sound

/-- A scope with one more import. -/
theorem addImport (h : scope.Sound) (i : String × ExternType) :
    { scope with imports := scope.imports ++ [i] }.Sound := by
  have hs : scope.imports ⊆ scope.imports ++ [i] := List.subset_append_left _ _
  exact ⟨h.names, fun e he => (h.exports e he).mono hs, fun f hf => (h.funcs f hf).mono hs,
    fun members hm => (h.instances members hm).mono hs, fun callee type hl => (h.lowers callee type hl).mono hs⟩

theorem thing (h : scope.Sound) (role : Wat.Role) (i : Nat) :
    Yields (scope.thing role i) (Extern.Sound scope.imports) := by
  unfold Scope.thing
  cases role with
  | func => exact .bind fun f hf => .ok (h.funcs f (itemAt_mem hf))
  | interface => exact .bind fun members hm => .ok (h.instances members (itemAt_mem hm))
  | module => exact .bind fun _ _ => .ok .module
  | component => exact .bind fun _ _ => .ok .component
  | type => exact .bind fun _ _ => .ok .type

theorem addExtern (h : scope.Sound) (he : e.Sound scope.imports) : (scope.addExtern e).Sound := by
  cases e with
  | func callee type =>
    refine ⟨h.names, h.exports, fun f hf => ?_, h.instances, h.lowers⟩
    rcases List.mem_append.mp hf with hf | hf
    · exact h.funcs f hf
    · cases List.mem_singleton.mp hf
      exact he
  | interface members =>
    refine ⟨h.names, h.exports, h.funcs, fun members' hm => ?_, h.lowers⟩
    rcases List.mem_append.mp hm with hm | hm
    · exact h.instances members' hm
    · cases List.mem_singleton.mp hm
      exact he
  | module | component | type => exact ⟨h.names, h.exports, h.funcs, h.instances, h.lowers⟩

theorem addAgain (h : scope.Sound) (role : Wat.Role) (i : Nat) (he : e.Sound scope.imports) :
    (scope.addAgain role i e).Sound := by
  cases role with
  | module | type => exact ⟨h.names, h.exports, h.funcs, h.instances, h.lowers⟩
  | func | interface | component => exact h.addExtern he

theorem defines (hd : scope.Defines scope') (h : scope.Sound) : scope'.Sound := by
  cases hd with
  | beside ha => exact ha.sound h
  | @«import» name item t ht =>
    refine (h.addImport (name, t)).addExtern (externType_sound scope item t ht [name] fun rest type hin => ?_)
    exact ⟨name, t, rest, rfl, List.mem_append_right _ List.mem_cons_self, hin⟩
  | @lift type func os lift hl =>
    cases lift_type hl
    exact h.addExtern (.lifted lift)
  | interface hm hn =>
    refine h.addExtern (.interface (checkNames_ok hn).1 fun e he => ?_)
    obtain ⟨role, i, ht⟩ := hm e he
    exact h.thing role i e.2 ht
  | @«alias» exports name e ho he =>
    cases h.instances exports ho with
    | interface _ hm => exact h.addExtern (hm (name, e) (Entries.mem_of_lookup he))
  | @«export» name role i e he hn =>
    have hsound := h.thing role i e he
    have hexported : { scope with exports := scope.exports ++ [(name, e)] }.Sound := by
      refine ⟨nodup_of_checkName hn h.names e, fun e' he' => ?_, h.funcs, h.instances, h.lowers⟩
      rcases List.mem_append.mp he' with he' | he'
      · exact h.exports e' he'
      · cases List.mem_singleton.mp he'
        exact hsound
    exact hexported.addAgain role i hsound

end Sound

/-- What a component is that the checks accept is what a sound scope has. -/
theorem check_sound (ds : List (Wat.Definition Nat)) :
    Yields (check ds) fun c => ∃ scope : Scope, scope.Sound ∧ c.imports = scope.imports ∧ c.steps = scope.steps ∧
      c.exports = scope.exports ∧ ∀ e ∈ c.exports, e.2.isRunnable = true := by
  have none : Scope.empty.Sound :=
    ⟨List.nodup_nil, by simp [Scope.empty], by simp [Scope.empty], by simp [Scope.empty],
      by simp [Scope.empty, Lowers]⟩
  exact check_yields Sound.defines none ds

end Scope

/-! ## Accepted components -/

variable {c : Component}

/-- Exports that a component can be run with: names lead to one thing each, the things are sound, and the
functions among them are the component's own. -/
structure SoundExports (c : Component) : Prop where
  names : c.exportNames.Nodup
  sound : ∀ e ∈ c.exports, e.2.Sound c.imports
  runnable : ∀ e ∈ c.exports, e.2.isRunnable = true

theorem Accepted.soundExports (h : c.Accepted) : c.SoundExports := by
  rcases h with rfl | ⟨definitions, h⟩
  · exact ⟨List.nodup_nil, by simp [empty], by simp [empty]⟩
  · obtain ⟨scope, hs, hi, -, he, hr⟩ := Scope.check_sound definitions c h
    refine ⟨?_, fun e hm => hi ▸ hs.exports e (he ▸ hm), hr⟩
    rw [exportNames, he]
    exact hs.names

/-- The type of an imported instance declares a function of a type. -/
def Declares (c : Component) (interface function : String) (type : Signature) : Prop :=
  ∃ members, (interface, .interface members) ∈ c.imports ∧ (function, .func type) ∈ members

theorem Declares.mem_importNames {interface function : String} {type : Signature}
    (h : c.Declares interface function type) : interface ∈ c.importNames := by
  obtain ⟨members, hi, -⟩ := h
  exact List.mem_map.mpr ⟨_, hi, rfl⟩

theorem declares_of_imported {interface function : String} {type : Signature}
    (h : Imported c.imports [interface, function] type) : c.Declares interface function type := by
  obtain ⟨name, t, rest, hn, hi, ht⟩ := h
  cases hn
  cases ht with
  | member hm ht =>
    cases ht
    exact ⟨_, hi, hm⟩

/-- Whatever function of an import an accepted component calls, the type of the import declares it. -/
theorem Accepted.declares (h : c.Accepted) {interface function : String} {type : Signature}
    {memory realloc : Option Nat}
    (hs : Step.lower (.imported [interface, function]) type memory realloc ∈ c.steps) :
    c.Declares interface function type := by
  rcases h with rfl | ⟨definitions, h⟩
  · cases hs
  · obtain ⟨scope, hsound, hi, hsteps, -⟩ := Scope.check_sound definitions c h
    have hlowered := hsound.lowers _ type ⟨memory, realloc, hsteps ▸ hs⟩
    rw [← hi] at hlowered
    cases hlowered with
    | imported hd => exact declares_of_imported hd

/-- An exported interface has a function of a name that takes a string and returns one. -/
def Provides (c : Component) (function interface : String) : Prop :=
  ∃ members callee, (interface, .interface members) ∈ c.exports ∧
    (function, .func callee ⟨[.string], [.string]⟩) ∈ members

/-- What an exported interface has under a name is found there, and it is a function of the component's
own with the types of the interface. -/
theorem SoundExports.member? (h : c.SoundExports) {function interface : String}
    (hp : c.Provides function interface) :
    (∃ e, c.export? interface = some e) ∧
    ∃ lift : Lift, lift.type = ⟨[.string], [.string]⟩ ∧
      c.member? interface function = some (.func (.lifted lift) lift.type) := by
  obtain ⟨members, callee, hi, hm⟩ := hp
  have hexport : c.export? interface = some (.interface members) := (Entries.lookup_iff_mem h.names).mpr hi
  refine ⟨⟨_, hexport⟩, ?_⟩
  cases h.sound _ hi with
  | interface hn hsound =>
    have hrunnable := Extern.isRunnable_of_mem (h.runnable _ hi) hm
    obtain ⟨lift, rfl, ht⟩ := Extern.eq_lifted_of_isRunnable (hsound _ hm) hrunnable
    refine ⟨lift, ht, ?_⟩
    rw [Component.member?, hexport, ht]
    exact (Entries.lookup_iff_mem hn).mpr hm

end ComponentHost.Component
