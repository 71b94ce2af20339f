import ComponentHost.Component.Validity

/-! # What definitions do

Whatever definition the checks accept, it goes by one of a few rules for what it makes of the imports, the
exports, the functions, the instances and the steps of a scope. What all rules keep, every component that is
accepted has. -/
set_option autoImplicit false

namespace ComponentHost.Component

/-! ## What a check yields -/

/-- A check yields only answers with a property. -/
def Yields {α : Type} (x : Checked α) (P : α → Prop) : Prop := ∀ a, x = .ok a → P a

variable {α β : Type} {P : α → Prop} {Q : β → Prop}

theorem Yields.ok {a : α} (h : P a) : Yields (.ok a) P := by
  rintro _ ⟨⟩
  exact h

theorem Yields.error {reason : Invalid} : Yields (.error reason : Checked α) P := by
  rintro _ ⟨⟩

theorem Yields.bind {x : Checked α} {f : α → Checked β} (h : ∀ a, x = .ok a → Yields (f a) Q) :
    Yields (x >>= f) Q := by
  cases x with
  | error reason => exact .error
  | ok a => exact h a rfl

theorem ensure_ok {holds : Bool} {reason : Invalid} (h : ensure holds reason = .ok ()) : holds = true := by
  cases holds with
  | true => rfl
  | false => cases h

theorem itemAt_mem {what : String} {xs : List α} {i : Nat} {x : α} (h : itemAt what xs i = .ok x) :
    x ∈ xs := by
  unfold itemAt at h
  split at h
  · next hx =>
    cases h
    exact List.mem_of_getElem? hx
  · cases h

/-- What a check yields for a list, it yields for the members one by one. -/
theorem mapM_yields {f : α → Checked β} (xs : List α) (h : ∀ x ∈ xs, Yields (f x) Q) :
    Yields (xs.mapM f) fun ys => ∀ y ∈ ys, Q y := by
  induction xs with
  | nil =>
    rw [List.mapM_nil]
    exact .ok fun _ hy => absurd hy List.not_mem_nil
  | cons x xs ih =>
    obtain ⟨hx, hxs⟩ := List.forall_mem_cons.mp h
    rw [List.mapM_cons]
    refine .bind fun y hy => .bind fun ys hys => .ok fun z hz => ?_
    rcases List.mem_cons.mp hz with rfl | hz
    · exact hx _ hy
    · exact ih hxs ys hys z hz

theorem forM_ok {f : α → Checked Unit} {xs : List α} (h : xs.forM f = .ok ()) : ∀ x ∈ xs, f x = .ok () := by
  induction xs with
  | nil => exact fun _ hx => absurd hx List.not_mem_nil
  | cons x xs ih =>
    have yields : Yields ((x :: xs).forM f) fun _ => ∀ x' ∈ x :: xs, f x' = .ok () := by
      change Yields (f x >>= fun _ => xs.forM f) _
      refine .bind fun _ hx => fun _ hxs => ?_
      exact List.forall_mem_cons.mpr ⟨hx, ih hxs⟩
    exact yields () h

/-! ## Names that are checked -/

theorem checkName_ok {before : List String} {name : String} (h : checkName before name = .ok ()) :
    name ∉ before := by
  have yields : Yields (checkName before name) fun _ => name ∉ before := by
    refine .bind fun _ _ => ?_
    intro _ h hm
    have := ensure_ok h
    simp only [Bool.not_eq_true', List.any_eq_false, beq_iff_eq] at this
    exact this name hm rfl
  exact yields () h

/-- A name that is checked keeps names apart. -/
theorem nodup_of_checkName {entries : List (String × α)} {name : String}
    (hn : checkName (entries.map Prod.fst) name = .ok ()) (h : (entries.map Prod.fst).Nodup) (value : α) :
    ((entries ++ [(name, value)]).map Prod.fst).Nodup := by
  rw [List.map_append, List.nodup_append]
  refine ⟨h, List.pairwise_singleton _ _, ?_⟩
  rintro a ha b hb rfl
  cases List.mem_singleton.mp hb
  exact checkName_ok hn ha

theorem checkNames_ok {before names : List String} (h : checkNames before names = .ok ()) :
    names.Nodup ∧ ∀ name ∈ names, name ∉ before := by
  induction names generalizing before with
  | nil => simp
  | cons name rest ih =>
    have yields : Yields (checkNames before (name :: rest)) fun _ =>
        (name :: rest).Nodup ∧ ∀ other ∈ name :: rest, other ∉ before := by
      refine .bind fun _ hn => ?_
      intro _ hr
      obtain ⟨nodup, apart⟩ := ih hr
      refine ⟨List.nodup_cons.mpr ⟨fun hm => apart name hm List.mem_cons_self, nodup⟩, ?_⟩
      intro other ho
      rcases List.mem_cons.mp ho with rfl | ho
      · exact checkName_ok hn
      · exact fun hb => apart other ho (List.mem_cons_of_mem _ hb)
    exact yields () h

/-! ## Definitions -/

namespace Scope

@[simp] theorem addExtern_imports (scope : Scope) (e : Extern) :
    (scope.addExtern e).imports = scope.imports := by
  cases e <;> rfl

@[simp] theorem addExtern_exports (scope : Scope) (e : Extern) :
    (scope.addExtern e).exports = scope.exports := by
  cases e <;> rfl

@[simp] theorem addExtern_steps (scope : Scope) (e : Extern) : (scope.addExtern e).steps = scope.steps := by
  cases e <;> rfl

@[simp] theorem addAgain_imports (scope : Scope) (role : Wat.Role) (i : Nat) (e : Extern) :
    (scope.addAgain role i e).imports = scope.imports := by
  cases role <;> simp [addAgain]

@[simp] theorem addAgain_exports (scope : Scope) (role : Wat.Role) (i : Nat) (e : Extern) :
    (scope.addAgain role i e).exports = scope.exports := by
  cases role <;> simp [addAgain]

@[simp] theorem addAgain_steps (scope : Scope) (role : Wat.Role) (i : Nat) (e : Extern) :
    (scope.addAgain role i e).steps = scope.steps := by
  cases role <;> simp [addAgain]

/-- The functions that the steps of a scope lower. -/
def Lowers (scope : Scope) (callee : Callee) (type : Signature) : Prop :=
  ∃ memory realloc, Step.lower callee type memory realloc ∈ scope.steps

theorem Lowers.of_steps {scope scope' : Scope} {callee : Callee} {type : Signature} (h : scope'.Lowers callee type)
    (hs : scope'.steps = scope.steps) : scope.Lowers callee type := by
  obtain ⟨memory, realloc, hm⟩ := h
  exact ⟨memory, realloc, hs ▸ hm⟩

/-- A step that lowers no function, or one of the scope, lowers no other. -/
theorem lowers_addStep {scope : Scope} {step : Step} {callee : Callee} {type : Signature}
    (hs : ∀ callee type memory realloc, step = .lower callee type memory realloc → (callee, type) ∈ scope.funcs)
    (h : (scope.addStep step).Lowers callee type) : scope.Lowers callee type ∨ (callee, type) ∈ scope.funcs := by
  obtain ⟨memory, realloc, hm⟩ := h
  rcases List.mem_append.mp hm with hm | hm
  · exact .inl ⟨memory, realloc, hm⟩
  · exact .inr (hs _ _ _ _ (List.mem_singleton.mp hm).symm)

/-- Two scopes have the same imports, exports, functions and instances, and the second lowers only what the
first lowers or has. -/
structure Alike (scope scope' : Scope) : Prop where
  imports : scope'.imports = scope.imports
  exports : scope'.exports = scope.exports
  funcs : scope'.funcs = scope.funcs
  instances : scope'.instances = scope.instances
  lowers : ∀ callee type, scope'.Lowers callee type → scope.Lowers callee type ∨ (callee, type) ∈ scope.funcs

/-- Scopes that differ only in what no rule speaks of. -/
theorem alike_of_eq {scope scope' : Scope} (hi : scope'.imports = scope.imports)
    (he : scope'.exports = scope.exports) (hf : scope'.funcs = scope.funcs)
    (hn : scope'.instances = scope.instances) (hs : scope'.steps = scope.steps) : scope.Alike scope' :=
  ⟨hi, he, hf, hn, fun _ _ h => .inl (h.of_steps hs)⟩

theorem addStep_alike {scope : Scope} {step : Step}
    (hs : ∀ callee type memory realloc, step = .lower callee type memory realloc → (callee, type) ∈ scope.funcs) :
    scope.Alike (scope.addStep step) :=
  ⟨rfl, rfl, rfl, rfl, fun _ _ => lowers_addStep hs⟩

theorem Alike.trans {scope scope' scope'' : Scope} (h : scope.Alike scope') (h' : scope'.Alike scope'') :
    scope.Alike scope'' where
  imports := h'.imports.trans h.imports
  exports := h'.exports.trans h.exports
  funcs := h'.funcs.trans h.funcs
  instances := h'.instances.trans h.instances
  lowers := fun callee type hl => by
    rcases h'.lowers callee type hl with hl | hm
    · exact h.lowers callee type hl
    · exact .inr (h.funcs ▸ hm)

theorem addCore_alike (scope : Scope) (type : Core.ExternType) : scope.Alike (scope.addCore type) := by
  cases type <;> exact alike_of_eq rfl rfl rfl rfl rfl

theorem addCoreInstance_alike (scope : Scope) (exports : List (String × Core.ExternType)) :
    scope.Alike (scope.addCoreInstance exports) := alike_of_eq rfl rfl rfl rfl rfl

/-- The step that lowers a function is for this function. -/
theorem lower_eq {scope : Scope} {callee callee' : Callee} {type type' : Signature}
    {os : List (Wat.CallOption Nat)} {memory realloc : Option Nat}
    (h : scope.lower callee type os = .ok (.lower callee' type' memory realloc)) :
    callee' = callee ∧ type' = type := by
  have yields : Yields (scope.lower callee type os) fun step =>
      ∀ callee' type' memory realloc, step = .lower callee' type' memory realloc →
        callee' = callee ∧ type' = type := by
    unfold Scope.lower
    refine .bind fun _ _ => .bind fun _ _ => .bind fun _ _ => .bind fun _ _ => .ok ?_
    rintro _ _ _ _ ⟨⟩
    exact ⟨rfl, rfl⟩
  exact yields _ h _ _ _ _ rfl

/-- The rules for definitions. Those that make neither an import, nor an export, nor a function, nor an
instance leave all of these as they were. -/
inductive Defines (scope : Scope) : Scope → Prop where
  | beside {scope' : Scope} (h : scope.Alike scope') : Defines scope scope'
  | «import» {name : String} {item : Wat.Item Nat} {t : ExternType} (ht : scope.externType item = .ok t)
      (hn : checkName (scope.imports.map Prod.fst) name = .ok ()) :
      Defines scope
        ({ scope with imports := scope.imports ++ [(name, t)] }.addExtern (Extern.ofType [name] t))
  | lift {type : Signature} {func : Nat} {os : List (Wat.CallOption Nat)} {lift : Lift}
      (hl : scope.lift type func os = .ok lift) :
      Defines scope (scope.addExtern (.func (.lifted lift) type))
  | interface {exports : List (String × Extern)}
      (hm : ∀ e ∈ exports, ∃ role i, scope.thing role i = .ok e.2)
      (hn : checkNames [] (exports.map Prod.fst) = .ok ()) :
      Defines scope (scope.addExtern (.interface exports))
  | «alias» {exports : List (String × Extern)} {name : String} {e : Extern}
      (ho : exports ∈ scope.instances) (he : exports.lookup name = some e) :
      Defines scope (scope.addExtern e)
  | «export» {name : String} {role : Wat.Role} {i : Nat} {e : Extern} (he : scope.thing role i = .ok e)
      (hn : checkName (scope.exports.map Prod.fst) name = .ok ()) :
      Defines scope ({ scope with exports := scope.exports ++ [(name, e)] }.addAgain role i e)

theorem define_defines (scope : Scope) (d : Wat.Definition Nat) : Yields (scope.define d) scope.Defines := by
  cases d with
  | «import» name id item =>
    rw [define]
    exact .bind fun t ht => .bind fun _ hn => .ok (.import ht hn)
  | coreModule id names fields =>
    rw [define]
    exact .bind fun _ _ => .ok (.beside (alike_of_eq rfl rfl rfl rfl rfl))
  | coreInstantiate id m args =>
    rw [define]
    refine .bind fun m' _ => ?_
    cases m' with
    | none => exact .error
    | some module =>
      dsimp only
      split
      · exact .error
      · exact .bind fun _ _ => .bind fun _ _ =>
          .ok (.beside ((addStep_alike (by rintro _ _ _ _ ⟨⟩)).trans (addCoreInstance_alike _ _)))
  | coreBundle id es =>
    rw [define]
    dsimp only
    split
    · exact .error
    · exact .bind fun _ _ =>
        .ok (.beside ((addStep_alike (by rintro _ _ _ _ ⟨⟩)).trans (addCoreInstance_alike _ _)))
  | coreAlias kind owner name =>
    rw [define]
    refine .bind fun exports _ => ?_
    split
    · exact .error
    · exact .bind fun _ _ => .ok (.beside ((addStep_alike (by rintro _ _ _ _ ⟨⟩)).trans (addCore_alike _ _)))
  | lower id func os =>
    rw [define]
    refine .bind fun f hf => .bind fun step hs => .ok (.beside (.trans (addStep_alike ?_) (addCore_alike _ _)))
    rintro callee type memory realloc rfl
    obtain ⟨rfl, rfl⟩ := lower_eq hs
    exact itemAt_mem hf
  | lift id names use func os =>
    rw [define]
    exact .bind fun _ _ => .bind fun _ hl => .ok (.lift hl)
  | interface id names es =>
    rw [define]
    refine .bind fun exports he => .bind fun _ hn => .ok (.interface ?_ hn)
    refine mapM_yields es (fun x _ => ?_) exports he
    exact .bind fun _ ht => .ok ⟨_, _, ht⟩
  | «alias» role owner name =>
    rw [define]
    refine .bind fun exports ho => ?_
    split
    · exact .error
    · next e he => exact .bind fun _ _ => .ok (.alias (itemAt_mem ho) he)
  | component id names inner =>
    rw [define]
    exact .bind fun _ _ => .ok (.beside (alike_of_eq rfl rfl rfl rfl rfl))
  | type id names type =>
    rw [define]
    exact .bind fun _ _ => .ok (.beside (alike_of_eq rfl rfl rfl rfl rfl))
  | «export» id name role r =>
    rw [define]
    exact .bind fun _ he => .bind fun _ hn => .ok (.export he hn)

section Runs

variable {P : Scope → Prop} (hP : ∀ {scope scope' : Scope}, scope.Defines scope' → P scope → P scope')
include hP

/-- What every rule keeps, definitions one after another keep. -/
theorem defineAll_yields {scope : Scope} (h : P scope) (ds : List (Wat.Definition Nat)) :
    Yields (scope.defineAll ds) P := by
  induction ds generalizing scope with
  | nil =>
    rw [defineAll]
    exact .ok h
  | cons d ds ih =>
    rw [defineAll]
    exact .bind fun scope' hd => ih (hP (define_defines scope d scope' hd) h)

/-- A component that is accepted has the imports, the steps and the exports of a scope that its definitions
come to, and can run what it exports. -/
theorem check_yields (h : P empty) (ds : List (Wat.Definition Nat)) :
    Yields (check ds) fun c => ∃ scope, P scope ∧ c.imports = scope.imports ∧ c.steps = scope.steps ∧
      c.exports = scope.exports ∧ ∀ e ∈ c.exports, e.2.isRunnable = true := by
  unfold check
  refine .bind fun scope hs => ?_
  unfold checkRoot
  refine .bind fun _ _ => .bind fun _ hr => .ok ⟨scope, defineAll_yields hP h ds scope hs, rfl, rfl, rfl, ?_⟩
  exact fun e he => ensure_ok (forM_ok hr e he)

end Runs

end Scope

end ComponentHost.Component
