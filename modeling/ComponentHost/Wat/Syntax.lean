import ComponentHost.Core.Instr
import ComponentHost.Component.Type

/-!
What a text in the text format says. References are names or numbers; `ρ` is the type of references,
so that the same syntax serves before and after names are replaced by numbers.
-/
set_option autoImplicit false

namespace ComponentHost.Wat

/-- A name that a text gives to something, and where. -/
structure Id where
  name : String
  offset : Nat
  deriving DecidableEq, Repr

/-- A reference to something by its name or its number. -/
inductive Ref where
  | id (id : Id)
  | index (n : Nat)
  deriving DecidableEq, Repr

/-! ## Core modules -/

/-- The parameters of a core function, some with names, and the number of its results. -/
structure Signature where
  params : List (Option Id)
  results : Nat
  deriving Repr, Inhabited

def Signature.type (s : Signature) : Core.FuncType := ⟨s.params.length, s.results⟩

/-- A function type: the number of a declared type, or a type of its own, or both. -/
structure TypeUse (ρ : Type) where
  index : Option ρ
  inline : Option Signature
  deriving Repr, Inhabited

inductive Op (ρ : Type) where
  | simple (op : Core.Simple)
  | localGet (i : ρ)
  | localSet (i : ρ)
  | localTee (i : ρ)
  | globalGet (i : ρ)
  | globalSet (i : ρ)
  | call (f : ρ)
  | callIndirect (table : Option ρ) (type : TypeUse ρ)
  | block (label : Option Id) (type : TypeUse ρ)
  | loop (label : Option Id) (type : TypeUse ρ)
  | ifThen (label : Option Id) (type : TypeUse ρ)
  | otherwise
  | finish
  | br (label : ρ)
  | brIf (label : ρ)
  deriving Repr

inductive CoreItem (ρ : Type) where
  | func (type : TypeUse ρ)
  | table (limits : Core.Limits)
  | memory (limits : Core.Limits)
  | global (isMut : Bool)
  deriving Repr

/-- A field of a core module. Functions, tables, memories and globals know the names under which they
are exported on the spot. -/
inductive Field (ρ : Type) where
  | type (id : Option Id) (signature : Signature)
  | import (offset : Nat) (module name : String) (id : Option Id) (exports : List String)
      (item : CoreItem ρ)
  | func (id : Option Id) (exports : List String) (type : TypeUse ρ) (locals : List (Option Id))
      (body : List (Op ρ))
  | table (id : Option Id) (exports : List String) (limits : Core.Limits)
  | memory (id : Option Id) (exports : List String) (limits : Core.Limits)
  | global (id : Option Id) (exports : List String) (isMut : Bool) (init : List (Op ρ))
  | export (name : String) (kind : Core.Kind) (index : ρ)
  | start (func : ρ)
  | data (id : Option Id) (memory : Option ρ) (place : List (Op ρ)) (bytes : List UInt8)
  deriving Repr

/-! ## Components -/

inductive ValType (ρ : Type) where
  | scalar (type : Component.Scalar)
  | string
  | list (item : ValType ρ)
  | option (item : ValType ρ)
  | tuple (items : List (ValType ρ))
  | record (fields : List (String × ValType ρ))
  | named (ref : ρ)
  deriving Repr

structure FuncType (ρ : Type) where
  params : List (String × ValType ρ)
  result : Option (ValType ρ)
  deriving Repr

/-- A function type that is written on the spot, or declared before. -/
inductive FuncUse (ρ : Type) where
  | inline (type : FuncType ρ)
  | named (ref : ρ)
  deriving Repr

/-- A type that a component declares. Types of instances, components and resources are not looked
into. -/
inductive TypeDef (ρ : Type) where
  | value (type : ValType ρ)
  | func (type : FuncType ρ)
  | other
  deriving Repr

/-- The type of an import, or of an export of an imported instance. -/
inductive Item (ρ : Type) where
  | func (type : FuncUse ρ)
  | interface (exports : List (String × Item ρ))
  | module
  | component
  | type
  deriving Repr

inductive Role where
  | func | interface | module | component | type
  deriving DecidableEq, Repr

/-- A reference to a core thing, or to an export of a core instance. -/
structure CoreRef (ρ : Type) where
  index : ρ
  name : Option String
  deriving Repr

/-- A reference to a thing, or, through names, to an export of an instance. -/
structure ItemRef (ρ : Type) where
  index : ρ
  names : List String
  deriving Repr

/-- An option of a function that crosses the boundary of a component. -/
inductive CallOption (ρ : Type) where
  | memory (ref : CoreRef ρ)
  | realloc (ref : CoreRef ρ)
  | postReturn (ref : CoreRef ρ)
  | utf8
  deriving Repr

/-- An argument of the instantiation of a core module. -/
inductive CoreArg (ρ : Type) where
  | given (index : ρ)
  | bundle (exports : List (String × Core.Kind × CoreRef ρ))
  deriving Repr

/-- A field of a component. Things other than core functions and core instances know the names under
which they are exported on the spot. `coreAlias` and `alias` stand for the export of an instance that
a later field uses on the spot; they are not written. -/
inductive Definition (ρ : Type) where
  | import (name : String) (id : Option Id) (item : Item ρ)
  | coreModule (id : Option Id) (names : List String) (fields : List (Field ρ))
  | coreInstantiate (id : Option Id) (module : ρ) (args : List (String × CoreArg ρ))
  | coreBundle (id : Option Id) (exports : List (String × Core.Kind × CoreRef ρ))
  | coreAlias (kind : Core.Kind) (owner : ρ) (name : String)
  | lower (id : Option Id) (func : ItemRef ρ) (options : List (CallOption ρ))
  | lift (id : Option Id) (names : List String) (type : FuncUse ρ) (func : CoreRef ρ)
      (options : List (CallOption ρ))
  | interface (id : Option Id) (names : List String) (exports : List (String × Role × ItemRef ρ))
  | alias (role : Role) (owner : ρ) (name : String)
  | component (id : Option Id) (names : List String) (definitions : List (Definition ρ))
  | type (id : Option Id) (names : List String) (type : TypeDef ρ)
  | export (id : Option Id) (name : String) (role : Role) (item : ItemRef ρ)
  deriving Repr

inductive Source (ρ : Type) where
  | component (definitions : List (Definition ρ))
  | module (fields : List (Field ρ))
  deriving Repr

end ComponentHost.Wat
