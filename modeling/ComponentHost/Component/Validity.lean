import ComponentHost.Component.Basic
import ComponentHost.Component.Name
import ComponentHost.Core.Typing

/-!
Checking components. Definitions are taken in order; each may use only what those before it define.
`Component.check` accepts a component that can be compiled and run on its own, which is a little less
than a valid one: it neither imports a component nor exports one, and passes no imported function on.
-/
set_option autoImplicit false

namespace ComponentHost.Component

inductive Invalid where
  /-- A core module is not well typed. -/
  | coreModule (fault : Core.TypeFault)
  /-- Nothing of this sort has the number. -/
  | unknown (what : String) (index : Nat)
  | invalidName (name : String)
  | duplicateName (name : String)
  /-- An instance has no member of the right sort under a name. -/
  | missingMember (name : String)
  /-- The instantiation of a core module lacks an argument, or has one twice. -/
  | argument (name : String)
  | importMismatch (module name : String)
  /-- A tuple or a record without parts. -/
  | emptyType
  | loweredType
  | missingOption (name : String)
  | repeatedOption (name : String)
  | optionType (name : String)
  /-- What is imported or exported cannot be run. -/
  | unsupported (name : String)
  /-- The text is a core module. -/
  | notComponent
  deriving DecidableEq, Repr

def Invalid.message : Invalid → String
  | .coreModule fault => fault.message
  | .unknown what index => s!"unknown {what} {index}"
  | .invalidName name => s!"\x60{name}\x60 is not a valid name"
  | .duplicateName name => s!"name \x60{name}\x60 conflicts with a previous name"
  | .missingMember name => s!"instance has no fitting export named \x60{name}\x60"
  | .argument name => s!"instantiation argument \x60{name}\x60 is missing or repeated"
  | .importMismatch module name => s!"type mismatch for import \x60{module}::{name}\x60"
  | .emptyType => "type must have at least one part"
  | .loweredType => "lowered types do not match the core function"
  | .missingOption name => s!"canonical option \x60{name}\x60 is required"
  | .repeatedOption name => s!"canonical option \x60{name}\x60 is specified more than once"
  | .optionType name => s!"canonical option \x60{name}\x60 does not fit"
  | .unsupported name => s!"\x60{name}\x60 is not supported at the root of a component"
  | .notComponent => "attempted to parse a core module as a component"

inductive DeclaredType where
  | value (type : ValType)
  | func (type : Signature)
  | other
  deriving Repr

/-- What the definitions so far have made, each list in the order of its numbers. -/
structure Scope where
  imports : List (String × ExternType)
  steps : List Step
  exports : List (String × Extern)
  coreFuncs : List Core.FuncType
  coreTables : List Core.Limits
  coreMemories : List Core.Limits
  coreGlobals : List Bool
  coreInstances : List (List (String × Core.ExternType))
  /-- The core modules; an imported one is not known. -/
  modules : List (Option Core.Module)
  funcs : List (Callee × Signature)
  instances : List (List (String × Extern))
  components : Nat
  /-- The declared types; one that is imported is not known. -/
  types : List DeclaredType

abbrev Checked (α : Type) : Type := Except Invalid α

def itemAt {α : Type} (what : String) (xs : List α) (i : Nat) : Checked α :=
  match xs[i]? with
  | some x => .ok x
  | none => .error (.unknown what i)

def ensure (holds : Bool) (reason : Invalid) : Checked Unit := if holds then .ok () else .error reason

/-- Checks that a new name is valid and not among those before it. -/
def checkName (before : List String) (name : String) : Checked Unit := do
  ensure (Name.isValid name) (.invalidName name)
  ensure (!before.any fun other => Name.key other == Name.key name) (.duplicateName name)

def checkNames : List String → List String → Checked Unit
  | _, [] => .ok ()
  | before, name :: rest => do
    checkName before name
    checkNames (name :: before) rest

namespace Scope

def empty : Scope := ⟨[], [], [], [], [], [], [], [], [], [], [], 0, []⟩

/-! ## Types -/

mutual

def valType (scope : Scope) : Wat.ValType Nat → Checked ValType
  | .scalar type => return .scalar type
  | .string => return .string
  | .list item => return .list (← scope.valType item)
  | .option item => return .option (← scope.valType item)
  | .tuple [] | .record [] => throw .emptyType
  | .tuple items => return .tuple (← scope.valTypes items)
  | .record fields => return .record (← scope.fieldTypes fields)
  | .named i => do
    match ← itemAt "type" scope.types i with
    | .value type => return type
    | _ => throw (.unknown "value type" i)

def valTypes (scope : Scope) : List (Wat.ValType Nat) → Checked (List ValType)
  | [] => return []
  | t :: ts => return (← scope.valType t) :: (← scope.valTypes ts)

/-- The types that the written types of fields stand for. -/
def fieldTypes (scope : Scope) : List (String × Wat.ValType Nat) →
    Checked (List (String × ValType))
  | [] => return []
  | (name, t) :: ts => return (name, ← scope.valType t) :: (← scope.fieldTypes ts)

end

/-- The type that a written function type stands for. -/
def signature (scope : Scope) (type : Wat.FuncType Nat) : Checked Signature := do
  let params ← scope.fieldTypes type.params
  match Core.repeated? (params.map Prod.fst) with
  | some name => throw (.duplicateName name)
  | none => pure ()
  let results ← match type.result with
    | none => pure []
    | some result => pure [← scope.valType result]
  return ⟨params.map Prod.snd, results⟩

/-- The type of a function that a use of a type stands for. -/
def funcUse (scope : Scope) : Wat.FuncUse Nat → Checked Signature
  | .inline type => scope.signature type
  | .named i => do
    match ← itemAt "type" scope.types i with
    | .func type => return type
    | _ => throw (.unknown "function type" i)

def declaredType (scope : Scope) : Wat.TypeDef Nat → Checked DeclaredType
  | .value type => return .value (← scope.valType type)
  | .func type => return .func (← scope.signature type)
  | .other => return .other

mutual

/-- The type that the written type of an import stands for. -/
def externType (scope : Scope) : Wat.Item Nat → Checked ExternType
  | .func use => return .func (← scope.funcUse use)
  | .interface exports => do
    let types ← scope.externTypes exports
    checkNames [] (types.map Prod.fst)
    return .interface types
  | .module => return .module
  | .component => return .component
  | .type => return .type

def externTypes (scope : Scope) : List (String × Wat.Item Nat) → Checked (List (String × ExternType))
  | [] => return []
  | (name, i) :: rest => return (name, ← scope.externType i) :: (← scope.externTypes rest)

end

/-! ## Core things -/

def coreType (scope : Scope) (kind : Core.Kind) (i : Nat) : Checked Core.ExternType :=
  match kind with
  | .func => Core.ExternType.func <$> itemAt "core function" scope.coreFuncs i
  | .table => Core.ExternType.table <$> itemAt "core table" scope.coreTables i
  | .memory => Core.ExternType.memory <$> itemAt "core memory" scope.coreMemories i
  | .global => Core.ExternType.global <$> itemAt "core global" scope.coreGlobals i

/-- The scope with one more core thing of a type. -/
def addCore (scope : Scope) : Core.ExternType → Scope
  | .func type => { scope with coreFuncs := scope.coreFuncs ++ [type] }
  | .table limits => { scope with coreTables := scope.coreTables ++ [limits] }
  | .memory limits => { scope with coreMemories := scope.coreMemories ++ [limits] }
  | .global isMut => { scope with coreGlobals := scope.coreGlobals ++ [isMut] }

def addStep (scope : Scope) (step : Step) : Scope := { scope with steps := scope.steps ++ [step] }

def addCoreInstance (scope : Scope) (exports : List (String × Core.ExternType)) : Scope :=
  { scope with coreInstances := scope.coreInstances ++ [exports] }

/-- Whether sizes lie within those that are asked for. -/
def fits (given wanted : Core.Limits) : Bool :=
  wanted.min ≤ given.min &&
    match wanted.max, given.max with
    | none, _ => true
    | some _, none => false
    | some most, some max => max ≤ most

/-- Whether a thing of a type can stand for an import of another. -/
def matchesImport : Core.ExternType → Core.ExternType → Bool
  | .func given, .func wanted => given = wanted
  | .table given, .table wanted => fits given wanted
  | .memory given, .memory wanted => fits given wanted
  | .global given, .global wanted => given == wanted
  | _, _ => false

/-- Checks that arguments have what an import asks for. -/
def checkImport (args : List (String × List (String × Core.ExternType))) (i : Core.Import) :
    Checked Unit := do
  match args.lookup i.module with
  | none => throw (.argument i.module)
  | some exports =>
    match exports.lookup i.name with
    | none => throw (.importMismatch i.module i.name)
    | some type => ensure (matchesImport type i.type) (.importMismatch i.module i.name)

/-! ## Things -/

def thing (scope : Scope) (role : Wat.Role) (i : Nat) : Checked Extern := do
  match role with
  | .func =>
    let (callee, type) ← itemAt "function" scope.funcs i
    return .func callee type
  | .interface => return .interface (← itemAt "instance" scope.instances i)
  | .module =>
    let _ ← itemAt "core module" scope.modules i
    return .module
  | .component =>
    ensure (i < scope.components) (.unknown "component" i)
    return .component
  | .type =>
    let _ ← itemAt "type" scope.types i
    return .type

def addExtern (scope : Scope) : Extern → Scope
  | .func callee type => { scope with funcs := scope.funcs ++ [(callee, type)] }
  | .interface exports => { scope with instances := scope.instances ++ [exports] }
  | .module => { scope with modules := scope.modules ++ [none] }
  | .component => { scope with components := scope.components + 1 }
  | .type => { scope with types := scope.types ++ [.other] }

def roleOf : Extern → Wat.Role
  | .func _ _ => .func
  | .interface _ => .interface
  | .module => .module
  | .component => .component
  | .type => .type

/-- The scope with a core module or a type, which is known, under one more number. -/
def addAgain (scope : Scope) (role : Wat.Role) (i : Nat) (e : Extern) : Scope :=
  match role with
  | .module => { scope with modules := scope.modules ++ [(scope.modules[i]?).join] }
  | .type => { scope with types := scope.types ++ [(scope.types[i]?).getD .other] }
  | _ => scope.addExtern e

/-! ## Options -/

/-- The options of a function that crosses the boundary. -/
structure Options where
  memory : Option Nat
  realloc : Option Nat
  postReturn : Option Nat
  encoding : Bool

def reallocType : Core.FuncType := ⟨4, 1⟩

def readOptions (scope : Scope) (os : List (Wat.CallOption Nat)) : Checked Options :=
  os.foldlM (fun (options : Options) o => do
    match o with
    | .memory r =>
      ensure options.memory.isNone (.repeatedOption "memory")
      let _ ← itemAt "core memory" scope.coreMemories r.index
      return { options with memory := some r.index }
    | .realloc r =>
      ensure options.realloc.isNone (.repeatedOption "realloc")
      let type ← itemAt "core function" scope.coreFuncs r.index
      ensure (type = reallocType) (.optionType "realloc")
      return { options with realloc := some r.index }
    | .postReturn r =>
      ensure options.postReturn.isNone (.repeatedOption "post-return")
      let _ ← itemAt "core function" scope.coreFuncs r.index
      return { options with postReturn := some r.index }
    | .utf8 =>
      ensure (!options.encoding) (.repeatedOption "string-encoding")
      return { options with encoding := true }) ⟨none, none, none, false⟩

/-- The function that a core function implements with options. -/
def lift (scope : Scope) (type : Signature) (func : Nat) (os : List (Wat.CallOption Nat)) :
    Checked Lift := do
  let options ← scope.readOptions os
  let coreType ← itemAt "core function" scope.coreFuncs func
  ensure (coreType = type.lifted) .loweredType
  ensure (!type.needsMemory || options.memory.isSome) (.missingOption "memory")
  ensure (!type.liftNeedsRealloc || options.realloc.isSome) (.missingOption "realloc")
  match options.postReturn with
  | none => pure ()
  | some f =>
    let cleanup ← itemAt "core function" scope.coreFuncs f
    ensure (cleanup = ⟨type.lifted.results, 0⟩) (.optionType "post-return")
  return ⟨type, func, options.memory, options.realloc, options.postReturn⟩

/-- The step that makes a core function for a function. -/
def lower (scope : Scope) (callee : Callee) (type : Signature) (os : List (Wat.CallOption Nat)) :
    Checked Step := do
  let options ← scope.readOptions os
  ensure options.postReturn.isNone (.optionType "post-return")
  ensure (!type.needsMemory || options.memory.isSome) (.missingOption "memory")
  ensure (!type.lowerNeedsRealloc || options.realloc.isSome) (.missingOption "realloc")
  return .lower callee type options.memory options.realloc

/-! ## Definitions -/

def checkModule (fields : List (Wat.Field Nat)) : Checked Core.Module :=
  (Core.Module.check fields).mapError .coreModule

/-- Where a core thing that a bundle takes is. -/
def bundled (es : List (String × Core.Kind × Wat.CoreRef Nat)) : List (String × Core.Kind × Nat) :=
  es.map fun (name, kind, r) => (name, kind, r.index)

/-- The instances that are arguments; all are references by now. -/
def argInstances (args : List (String × Wat.CoreArg Nat)) : List (String × Nat) :=
  args.filterMap fun
    | (name, .given i) => some (name, i)
    | (_, .bundle _) => none

mutual

def define (scope : Scope) : Wat.Definition Nat → Checked Scope
  | .import name _ i => do
    let t ← scope.externType i
    checkName (scope.imports.map Prod.fst) name
    return { scope with imports := scope.imports ++ [(name, t)] }.addExtern (Extern.ofType [name] t)
  | .coreModule _ _ fields => do
    let module ← checkModule fields
    return { scope with modules := scope.modules ++ [some module] }
  | .coreInstantiate _ m args => do
    let args := argInstances args
    match ← itemAt "core module" scope.modules m with
    | none => throw (.unsupported "instance of an imported core module")
    | some module =>
      match Core.repeated? (args.map Prod.fst) with
      | some name => throw (.argument name)
      | none => pure ()
      let given ← args.mapM fun (name, i) => return (name, ← itemAt "core instance" scope.coreInstances i)
      module.imports.forM (checkImport given)
      return (scope.addStep (.instantiate module args)).addCoreInstance module.exportTypes
  | .coreBundle _ es => do
    let exports := bundled es
    match Core.repeated? (exports.map Prod.fst) with
    | some name => throw (.duplicateName name)
    | none => pure ()
    let types ← exports.mapM fun (name, kind, i) => return (name, ← scope.coreType kind i)
    return (scope.addStep (.bundle exports)).addCoreInstance types
  | .coreAlias kind owner name => do
    let exports ← itemAt "core instance" scope.coreInstances owner
    match exports.lookup name with
    | none => throw (.missingMember name)
    | some type =>
      ensure (type.kind = kind) (.missingMember name)
      return (scope.addStep (.alias kind owner name)).addCore type
  | .lower _ func os => do
    let (callee, type) ← itemAt "function" scope.funcs func.index
    return (scope.addStep (← scope.lower callee type os)).addCore (.func type.lowered)
  | .lift _ _ use func os => do
    let type ← scope.funcUse use
    return scope.addExtern (.func (.lifted (← scope.lift type func.index os)) type)
  | .interface _ _ es => do
    let exports ← es.mapM fun (name, role, r) => return (name, ← scope.thing role r.index)
    checkNames [] (exports.map Prod.fst)
    return scope.addExtern (.interface exports)
  | .alias role owner name => do
    match (← itemAt "instance" scope.instances owner).lookup name with
    | none => throw (.missingMember name)
    | some e =>
      ensure (roleOf e = role) (.missingMember name)
      return scope.addExtern e
  | .component _ _ inner => do
    let _ ← Scope.empty.defineAll inner
    return scope.addExtern .component
  | .type _ _ type => do
    return { scope with types := scope.types ++ [← scope.declaredType type] }
  | .export _ name role r => do
    let e ← scope.thing role r.index
    checkName (scope.exports.map Prod.fst) name
    return { scope with exports := scope.exports ++ [(name, e)] }.addAgain role r.index e

def defineAll (scope : Scope) : List (Wat.Definition Nat) → Checked Scope
  | [] => return scope
  | d :: ds => do (← scope.define d).defineAll ds

end

end Scope

/-- Checks that a component can be run on its own. -/
def checkRoot (scope : Scope) : Checked Component := do
  scope.imports.forM fun (name, t) =>
    match t with
    | .component => throw (.unsupported name)
    | _ => pure ()
  scope.exports.forM fun (name, e) => ensure e.isRunnable (.unsupported name)
  return ⟨scope.imports, scope.steps, scope.exports⟩

def check (definitions : List (Wat.Definition Nat)) : Checked Component := do
  checkRoot (← Scope.empty.defineAll definitions)

end ComponentHost.Component
