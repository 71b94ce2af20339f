import ComponentHost.Machine.Placement
import Mathlib.Data.List.Forall2

/-! # Values of types

What is read as a value of a type has the type, be it passed in words or in a memory, and a reading that fails
fails for a reason of the component's own. A value that has a type is put as one of it by tasks that put its parts
as their types; only a value that does not have the type is found to be a misfit. -/
set_option autoImplicit false

namespace ComponentHost

open Component (ValType)

/-! ## Traps -/

/-- The traps with which a component does not let a call in. -/
def Trap.isRefusal : Trap → Bool
  | .cannotEnter | .missingFunction _ _ | .notFunction _ _ | .argumentCount _ _ | .resultCount _ _ => true
  | _ => false

/-- The traps that say that a value does not have the type that it should. -/
def Trap.isMisfit : Trap → Bool
  | .typeMismatch _ _ | .itemCount _ _ | .fieldCount _ _ | .fieldName _ _ => true
  | _ => false

/-- The traps that come of what two components expect of each other: a call is not let in, or a value does not
have the type that it should. -/
def Trap.isForeign (trap : Trap) : Bool := trap.isMisfit || trap.isRefusal

/-- The traps that come of what a component does by itself. -/
def Trap.isOwn : Trap → Bool
  | .interrupted => false
  | trap => !trap.isForeign

theorem Trap.isForeign_of_isOwn {trap : Trap} (h : trap.isOwn = true) : trap.isForeign = false := by
  cases trap <;> first | rfl | cases h

theorem Trap.isRefusal_of_own {trap : Trap} (h : trap.isForeign = false) : trap.isRefusal = false :=
  (Bool.or_eq_false_iff.mp h).2

theorem Trap.isForeign_of_isMisfit {trap : Trap} (h : trap.isMisfit = true) : trap.isForeign = true :=
  Bool.or_eq_true_iff.mpr (.inl h)

theorem Trap.isRefusal_of_isMisfit {trap : Trap} (h : trap.isMisfit = true) : trap.isRefusal = false := by
  cases trap <;> first | rfl | cases h

/-- What is read comes to something with a property, or fails for a reason of the component's own. -/
def Trap.Reads {α : Type} (P : α → Prop) : Except Trap α → Prop
  | .ok a => P a
  | .error trap => trap.isOwn = true

namespace Trap.Reads

variable {α β : Type} {P : α → Prop} {Q : β → Prop}

theorem bind {x : Except Trap α} {f : α → Except Trap β} (hx : Reads P x) (hf : ∀ a, P a → Reads Q (f a)) :
    Reads Q (x >>= f) := by
  cases x with
  | ok a => exact hf a hx
  | error trap => exact hx

theorem map {x : Except Trap α} {f : α → β} (hx : Reads (fun a => Q (f a)) x) : Reads Q (x.map f) := by
  cases x <;> exact hx

theorem mapM {f : α → Except Trap β} {xs : List α} (hf : ∀ x ∈ xs, Reads Q (f x)) :
    Reads (fun ys => ∀ y ∈ ys, Q y) (xs.mapM f) := by
  induction xs with
  | nil => exact fun _ hy => absurd hy List.not_mem_nil
  | cons x xs ih =>
    obtain ⟨hx, hxs⟩ := List.forall_mem_cons.mp hf
    rw [List.mapM_cons]
    refine hx.bind fun y hy => (ih hxs).bind fun ys hys => ?_
    exact List.forall_mem_cons.mpr ⟨hy, hys⟩

end Trap.Reads

namespace Value

/-! ## Types -/

/-- A value is one of a type, with all its parts. -/
inductive HasType : Value → ValType → Prop where
  | scalar (type : Component.Scalar) (bits : UInt32) : HasType (.scalar type bits) (.scalar type)
  | string (text : String) : HasType (.string text) .string
  | list {values : List Value} {item : ValType} (h : ∀ value ∈ values, HasType value item) :
      HasType (.list values) (.list item)
  | none (item : ValType) : HasType (.option none) (.option item)
  | some {value : Value} {item : ValType} (h : HasType value item) : HasType (.option (some value)) (.option item)
  | tuple {values : List Value} {types : List ValType} (h : List.Forall₂ HasType values types) :
      HasType (.tuple values) (.tuple types)
  | record {given : List (String × Value)} {wanted : List (String × ValType)}
      (hn : given.map Prod.fst = wanted.map Prod.fst)
      (h : List.Forall₂ HasType (given.map Prod.snd) (wanted.map Prod.snd)) : HasType (.record given) (.record wanted)

/-- Values of these types, one by one. -/
abbrev HaveTypes (values : List Value) (types : List ValType) : Prop := List.Forall₂ HasType values types

/-- The fields of a record of this type, one by one. -/
def HaveFields (given : List (String × Value)) (wanted : List (String × ValType)) : Prop :=
  given.map Prod.fst = wanted.map Prod.fst ∧ HaveTypes (given.map Prod.snd) (wanted.map Prod.snd)

theorem HaveFields.nil : HaveFields [] [] := ⟨rfl, .nil⟩

theorem HaveFields.cons {name : String} {value : Value} {type : ValType} {given : List (String × Value)}
    {wanted : List (String × ValType)} (hv : HasType value type) (h : HaveFields given wanted) :
    HaveFields ((name, value) :: given) ((name, type) :: wanted) :=
  ⟨congrArg (name :: ·) h.1, .cons hv h.2⟩

/-- The only value of a string type is a string. -/
theorem HaveTypes.eq_string {values : List Value} (h : HaveTypes values [.string]) :
    ∃ text, values = [.string text] := by
  cases h with
  | cons hv hr =>
    cases hr
    cases hv with
    | string text => exact ⟨text, rfl⟩

/-! ## Reading -/

section Reading

variable {memory : Core.Memory}

theorem ofWord_reads (type : Component.Scalar) (bits : UInt32) :
    Trap.Reads (HasType · (.scalar type)) (ofWord type bits) := by
  unfold ofWord
  cases type with
  | char =>
    dsimp only
    split
    · exact .scalar .char bits
    · rfl
  | bool | s8 | u8 | s16 | u16 | s32 | u32 => exact .scalar _ _

theorem readString_reads (address bytes : Nat) :
    Trap.Reads (HasType · .string) (readString memory address bytes) := by
  unfold readString
  split
  · split
    · exact .string _
    · rfl
  · rfl

theorem readList_reads {item : ValType} {read : Nat → Except Trap Value}
    (hread : ∀ p, Trap.Reads (HasType · item) (read p)) (address count : Nat) :
    Trap.Reads (HasType · (.list item)) (readList memory item read address count) := by
  unfold readList
  split
  · rfl
  · split
    · rfl
    · exact (Trap.Reads.mapM fun i _ => hread _).bind fun values hv => HasType.list hv

mutual

theorem load_reads : ∀ (type : ValType) (p : Nat), Trap.Reads (HasType · type) (load memory type p)
  | .scalar type, p => by
    unfold load
    exact ofWord_reads type _
  | .string, p => by
    unfold load
    exact readString_reads _ _
  | .list item, p => by
    unfold load
    exact readList_reads (fun p => load_reads item p) _ _
  | .option item, p => by
    unfold load
    split
    · exact .none item
    · exact (load_reads item _).bind fun value hv => HasType.some hv
    · rfl
  | .tuple items, p => by
    unfold load
    exact (loadEach_reads items p).bind fun values hv => HasType.tuple hv
  | .record fields, p => by
    unfold load
    exact (loadFields_reads fields p).bind fun values hv => HasType.record hv.1 hv.2

theorem loadEach_reads : ∀ (types : List ValType) (p : Nat),
    Trap.Reads (HaveTypes · types) (loadEach memory types p)
  | [], p => by
    unfold loadEach
    exact List.Forall₂.nil
  | type :: types, p => by
    unfold loadEach
    refine (load_reads type _).bind fun value hv => (loadEach_reads types _).bind fun values hvs => ?_
    exact List.Forall₂.cons hv hvs

theorem loadFields_reads : ∀ (fields : List (String × ValType)) (p : Nat),
    Trap.Reads (HaveFields · fields) (loadFields memory fields p)
  | [], p => by
    unfold loadFields
    exact HaveFields.nil
  | (name, type) :: fields, p => by
    unfold loadFields
    refine (load_reads type _).bind fun value hv => (loadFields_reads fields _).bind fun values hvs => ?_
    exact HaveFields.cons hv hvs

end

variable {memory : Option Core.Memory}

mutual

theorem lift_reads : ∀ (type : ValType) (words : List UInt32),
    Trap.Reads (fun read => HasType read.1 type) (lift memory type words)
  | .scalar type, w :: words => by
    unfold lift
    exact (ofWord_reads type w).bind fun value hv => hv
  | .string, address :: bytes :: words => by
    unfold lift
    cases memory with
    | none => rfl
    | some m => exact (readString_reads _ _).bind fun value hv => hv
  | .list item, address :: count :: words => by
    unfold lift
    cases memory with
    | none => rfl
    | some m => exact (readList_reads (load_reads item) _ _).bind fun value hv => hv
  | .option item, w :: words => by
    unfold lift
    split
    · exact .none item
    · exact (lift_reads item words).bind fun read hv => HasType.some hv
    · rfl
  | .tuple items, words => by
    unfold lift
    exact (liftEach_reads items words).bind fun read hv => HasType.tuple hv
  | .record fields, words => by
    unfold lift
    exact (liftFields_reads fields words).bind fun read hv => HasType.record hv.1 hv.2
  -- there are too few words
  | .scalar _, [] | .string, [] | .string, [_] | .list _, [] | .list _, [_] | .option _, [] => by
    unfold lift
    rfl

theorem liftEach_reads : ∀ (types : List ValType) (words : List UInt32),
    Trap.Reads (fun read => HaveTypes read.1 types) (liftEach memory types words)
  | [], words => by
    unfold liftEach
    exact List.Forall₂.nil
  | type :: types, words => by
    unfold liftEach
    refine (lift_reads type words).bind fun read hv => (liftEach_reads types read.2).bind fun rest hvs => ?_
    exact List.Forall₂.cons hv hvs

theorem liftFields_reads : ∀ (fields : List (String × ValType)) (words : List UInt32),
    Trap.Reads (fun read => HaveFields read.1 fields) (liftFields memory fields words)
  | [], words => by
    unfold liftFields
    exact HaveFields.nil
  | (name, type) :: fields, words => by
    unfold liftFields
    refine (lift_reads type words).bind fun read hv => (liftFields_reads fields read.2).bind fun rest hvs => ?_
    exact HaveFields.cons hv hvs

end

theorem area_reads (m : Core.Memory) (types : List ValType) {misaligned outOfBounds : Trap}
    (hm : misaligned.isOwn = true) (ho : outOfBounds.isOwn = true) (pointer : UInt32) :
    Trap.Reads (fun _ => True) (area m types misaligned outOfBounds pointer) := by
  unfold area
  dsimp only
  split
  · exact hm
  · split
    · trivial
    · exact ho

theorem ofWords_reads (types : List ValType) (isFlat : Bool) {misaligned outOfBounds : Trap}
    (hm : misaligned.isOwn = true) (ho : outOfBounds.isOwn = true) (words : List UInt32) :
    Trap.Reads (HaveTypes · types) (ofWords memory types isFlat misaligned outOfBounds words) := by
  unfold ofWords
  split
  · exact (liftEach_reads types words).map
  · split
    · exact (area_reads _ types hm ho _).bind fun p _ => loadEach_reads types p
    · rfl

/-- The arguments that a function is called with have the types of its parameters. -/
theorem ofArguments_reads (type : Component.Signature) (words : List UInt32) :
    Trap.Reads (HaveTypes · type.params) (ofArguments memory type words) :=
  ofWords_reads type.params _ rfl rfl words

/-- The results that a function returns have the types of its results. -/
theorem ofResults_reads (type : Component.Signature) (words : List UInt32) :
    Trap.Reads (HaveTypes · type.results) (ofResults memory type words) :=
  ofWords_reads type.results _ rfl rfl words

end Reading

end Value

/-! ## Placing -/

/-- A part is a value of its type and, in a record, of the field that is wanted. -/
structure Part.Fits (part : Part) : Prop where
  value : part.value.HasType part.type
  names : ∀ wanted given, part.names = some (wanted, given) → wanted = given

/-- All parts that a task is about are values of their types. -/
def Task.Fits : Task → Prop
  | .part p _ => p.Fits
  | .number _ _ _ => True
  | .ask c _ | .fill c _ => ∀ p ∈ c.parts, p.Fits

/-- All values that are still to be placed are values of their types. -/
def Placement.Fits (p : Placement) : Prop := ∀ task ∈ p.tasks, task.Fits

theorem Part.fits_of_hasType {type : ValType} {value : Value} (h : value.HasType type) :
    (⟨none, type, value⟩ : Part).Fits := ⟨h, fun _ _ => nofun⟩

theorem Part.fits_ofValues {types : List ValType} {values : List Value} (h : Value.HaveTypes values types) :
    ∀ part ∈ Part.ofValues types values, part.Fits := by
  induction h with
  | nil => exact fun _ hp => absurd hp List.not_mem_nil
  | cons hv _ ih => exact List.forall_mem_cons.mpr ⟨fits_of_hasType hv, ih⟩

/-- The fields of a record fit when they have the names and types that are wanted. -/
theorem Part.fits_ofFields {wanted : List (String × ValType)} {given : List (String × Value)}
    (h : Value.HaveFields given wanted) :
    ∀ part ∈ (wanted.zip given).map fun ((name, type), other, value) => (⟨some (name, other), type, value⟩ : Part),
      part.Fits := by
  induction wanted generalizing given with
  | nil => exact fun _ hp => absurd hp List.not_mem_nil
  | cons field wanted ih =>
    cases given with
    | nil => exact fun _ hp => absurd hp List.not_mem_nil
    | cons other given =>
      obtain ⟨hn, hr⟩ := List.cons_eq_cons.mp h.1
      obtain ⟨hv, hvs⟩ := List.forall₂_cons.mp h.2
      refine List.forall_mem_cons.mpr ⟨⟨hv, ?_⟩, ih ⟨hr, hvs⟩⟩
      rintro _ _ ⟨⟩
      exact hn.symm

namespace Task

theorem each_fits {parts : List Part} (h : ∀ part ∈ parts, part.Fits) (target : Target) :
    ∀ task ∈ each target parts, task.Fits := by
  induction parts generalizing target with
  | nil => exact fun _ ht => absurd ht List.not_mem_nil
  | cons part parts ih =>
    obtain ⟨hp, hps⟩ := List.forall_mem_cons.mp h
    exact List.forall_mem_cons.mpr ⟨hp, ih hps _⟩

theorem contents_fits {c : Contents} (h : ∀ part ∈ c.parts, part.Fits) (address : UInt32) (target : Target) :
    ∀ task ∈ contents c address target, task.Fits := by
  refine List.forall_mem_append.mpr ⟨each_fits h _, List.forall_mem_cons.mpr ⟨trivial, ?_⟩⟩
  cases c.count? with
  | none => exact fun _ ht => absurd ht List.not_mem_nil
  | some n => exact List.forall_mem_singleton.mpr trivial

theorem blank_fits (type : ValType) (target : Target) : ∀ task ∈ blank type target, task.Fits := by
  cases target with
  | words =>
    intro task ht
    cases List.eq_of_mem_replicate ht
    trivial
  | memory address => exact fun _ ht => absurd ht List.not_mem_nil

end Task

/-- What a value of a type is put by. -/
theorem Value.HasType.tasks {type : ValType} {value : Value} (h : value.HasType type) (target : Target) :
    Trap.Reads (fun tasks => ∀ task ∈ tasks, task.Fits) (value.tasks type target) := by
  cases h with
  | scalar type bits =>
    rw [Value.tasks, if_pos rfl]
    exact List.forall_mem_singleton.mpr trivial
  | string text =>
    unfold Value.tasks
    dsimp only
    split
    · exact List.forall_mem_singleton.mpr fun _ hp => absurd hp List.not_mem_nil
    · rfl
  | list hv =>
    refine List.forall_mem_singleton.mpr fun part hp => ?_
    obtain ⟨value, hm, rfl⟩ := List.mem_map.mp hp
    exact Part.fits_of_hasType (hv value hm)
  | none item => exact List.forall_mem_cons.mpr ⟨trivial, Task.blank_fits item target⟩
  | some hv =>
    refine List.forall_mem_cons.mpr ⟨trivial, Task.each_fits ?_ _⟩
    exact List.forall_mem_singleton.mpr (Part.fits_of_hasType hv)
  | tuple hv =>
    rw [Value.tasks, if_pos hv.length_eq.symm]
    exact Task.each_fits (Part.fits_ofValues hv) target
  | record hn hv =>
    have hlength := congrArg List.length hn
    rw [List.length_map, List.length_map] at hlength
    rw [Value.tasks, if_pos hlength.symm]
    exact Task.each_fits (Part.fits_ofFields ⟨hn, hv⟩) target

theorem Part.Fits.tasks {part : Part} (h : part.Fits) (target : Target) :
    Trap.Reads (fun tasks => ∀ task ∈ tasks, task.Fits) (part.tasks target) := by
  unfold Part.tasks
  split
  · exact h.value.tasks target
  · next wanted given hn =>
    rw [if_pos (h.names wanted given hn)]
    exact h.value.tasks target

/-- A value that cannot be put is a misfit, or it is a text that is too long. -/
theorem Part.tasks_error {part : Part} {target : Target} {trap : Trap} (h : part.tasks target = .error trap) :
    trap.isOwn = true ∨ trap.isMisfit = true := by
  have hvalue : ∀ {type : ValType} {value : Value}, value.tasks type target = .error trap →
      trap.isOwn = true ∨ trap.isMisfit = true := by
    intro type value h
    unfold Value.tasks at h
    split at h
    · split at h <;> cases h
      exact .inr rfl
    · dsimp only at h
      split at h <;> cases h
      exact .inl rfl
    · cases h
    · cases h
    · cases h
    · split at h <;> cases h
      exact .inr rfl
    · split at h <;> cases h
      exact .inr rfl
    · cases h
      exact .inr rfl
  unfold Part.tasks at h
  split at h
  · exact hvalue h
  · split at h
    · exact hvalue h
    · cases h
      exact .inr rfl

theorem Placement.ofArguments_fits {type : Component.Signature} {args : List Value}
    (h : Value.HaveTypes args type.params) (memory realloc : Option Nat) :
    (Placement.ofArguments memory realloc type args).Fits := by
  have hparts := Part.fits_ofValues h
  unfold Placement.Fits Placement.ofArguments
  dsimp only
  split
  · exact Task.each_fits hparts _
  · exact List.forall_mem_singleton.mpr hparts

theorem Placement.ofResults_fits {type : Component.Signature} {values : List Value}
    (h : Value.HaveTypes values type.results) (memory realloc : Option Nat) (target : Target) :
    (Placement.ofResults memory realloc type values target).Fits :=
  Task.each_fits (Part.fits_ofValues h) target

end ComponentHost
