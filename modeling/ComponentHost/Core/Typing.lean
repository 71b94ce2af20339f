import ComponentHost.Core.Memory
import ComponentHost.Wat.Syntax

/-!
Typing core modules. Since every value is a word, typing a body is counting its operands; behind an
instruction that never falls through any number of operands is there. `Body.check` also puts the
instructions of a block into it, and `Module.check` turns the fields of a module into the module.
-/
set_option autoImplicit false

namespace ComponentHost.Core

open Wat (Op TypeUse)

inductive TypeFault where
  /-- Nothing of this sort has the number. -/
  | unknown (what : String) (index : Nat)
  | missingOperand
  | operandsLeft
  | misplacedEnd
  | missingElse
  | immutableGlobal (index : Nat)
  | notConstant
  | typeMismatch
  | sizeLimits
  | duplicateExport (name : String)
  | duplicateImport (module name : String)
  | startType
  deriving DecidableEq, Repr

def TypeFault.message : TypeFault → String
  | .unknown what index => s!"unknown {what} {index}"
  | .missingOperand => "type mismatch: expected i32 but nothing on stack"
  | .operandsLeft => "type mismatch: values remaining on stack at end of block"
  | .misplacedEnd => "control frames remain at end of function"
  | .missingElse => "type mismatch: an if without else must not change the stack"
  | .immutableGlobal index => s!"global {index} is immutable"
  | .notConstant => "constant expression required"
  | .typeMismatch => "type mismatch"
  | .sizeLimits => "size limits out of bounds"
  | .duplicateExport name => s!"duplicate export name \x60{name}\x60 already defined"
  | .duplicateImport module name => s!"duplicate import name \x60{module}:{name}\x60"
  | .startType => "invalid start function type"

/-- The things that a body can use, with imported ones first. -/
structure Context where
  types : List FuncType
  funcs : List FuncType
  tables : Nat
  memories : Nat
  /-- For each global, whether it can be changed. -/
  globals : List Bool
  deriving Repr

abbrev Checked (α : Type) : Type := Except TypeFault α

def itemAt {α : Type} (what : String) (xs : List α) (i : Nat) : Checked α :=
  match xs[i]? with
  | some x => .ok x
  | none => .error (.unknown what i)

def ensure (holds : Bool) (fault : TypeFault) : Checked Unit :=
  if holds then .ok () else .error fault

/-- The type that a use of a type stands for. -/
def Context.typeOf (context : Context) (use : TypeUse Nat) : Checked FuncType :=
  match use.index, use.inline with
  | none, none => .ok ⟨0, 0⟩
  | none, some signature => .ok signature.type
  | some i, none => itemAt "type" context.types i
  | some i, some signature => do
    let declared ← itemAt "type" context.types i
    ensure (declared = signature.type) .typeMismatch
    return declared

/-! ## Bodies -/

inductive Opening where
  | body
  | block
  | loop
  | yes
  /-- The second branch of an `if`, with the instructions of the first. -/
  | no (yes : List Instr)
  deriving Repr

/-- A level of a body that is being typed. -/
structure Level where
  opening : Opening
  type : FuncType
  /-- The number of operands of this level. -/
  operands : Nat
  /-- Whether the place cannot be reached, so that any number of operands is below. -/
  isDead : Bool
  /-- The instructions of the level, the last first. -/
  code : List Instr
  deriving Repr

namespace Level

/-- A level with the parameters of its block as operands. -/
def ofBlock (opening : Opening) (type : FuncType) : Level := ⟨opening, type, type.params, false, []⟩

def pop (level : Level) (n : Nat) : Checked Level :=
  if n ≤ level.operands then .ok { level with operands := level.operands - n }
  else if level.isDead then .ok { level with operands := 0 }
  else .error .missingOperand

def push (level : Level) (n : Nat) : Level := { level with operands := level.operands + n }

def emit (level : Level) (i : Instr) : Level := { level with code := i :: level.code }

def die (level : Level) : Level := { level with operands := 0, isDead := true }

/-- The number of operands that a branch to the level takes along. -/
def arity (level : Level) : Nat :=
  match level.opening with
  | .loop => level.type.params
  | _ => level.type.results

/-- The instructions of the level, when its operands are its results. -/
def close (level : Level) : Checked (List Instr) := do
  let rest ← level.pop level.type.results
  ensure (rest.operands = 0) .operandsLeft
  return level.code.reverse

/-- The instruction that a level becomes in the level around it. -/
def toInstr (level : Level) : Checked Instr := do
  let code ← level.close
  match level.opening with
  | .body => .error .misplacedEnd
  | .block => return .block level.type code
  | .loop => return .loop level.type code
  | .yes =>
    ensure (level.type.params = level.type.results) .missingElse
    return .ifElse level.type code []
  | .no yes => return .ifElse level.type yes code

end Level

/-- How many operands an instruction takes and leaves, among those that name nothing and fall
through. -/
def Simple.type : Simple → FuncType
  | .const _ => ⟨0, 1⟩
  | .unary _ => ⟨1, 1⟩
  | .binary _ => ⟨2, 1⟩
  | .load _ _ => ⟨1, 1⟩
  | .store _ _ => ⟨2, 0⟩
  | .memorySize => ⟨0, 1⟩
  | .memoryGrow => ⟨1, 1⟩
  | .memoryCopy => ⟨3, 0⟩
  | .memoryFill => ⟨3, 0⟩
  | .drop => ⟨1, 0⟩
  | .select => ⟨3, 1⟩
  | .nop => ⟨0, 0⟩
  | .unreachable => ⟨0, 0⟩
  | .ret => ⟨0, 0⟩

def Simple.usesMemory : Simple → Bool
  | .load _ _ | .store _ _ | .memorySize | .memoryGrow | .memoryCopy | .memoryFill => true
  | _ => false

structure Body where
  context : Context
  /-- The number of locals, parameters included. -/
  locals : Nat
  /-- The innermost level. -/
  level : Level
  /-- The levels around it, the innermost first. -/
  outer : List Level
  deriving Repr

namespace Body

def use (body : Body) (type : FuncType) (i : Instr) : Checked Body := do
  return { body with level := ((← body.level.pop type.params).push type.results).emit i }

def leave (body : Body) (n : Nat) (i : Instr) : Checked Body := do
  return { body with level := ((← body.level.pop n).emit i).die }

def enter (body : Body) (opening : Opening) (type : FuncType) : Checked Body := do
  let below ← body.level.pop type.params
  return { body with level := .ofBlock opening type, outer := below :: body.outer }

/-- The number of operands that a branch takes along. -/
def branchArity (body : Body) (depth : Nat) : Checked Nat := do
  return (← itemAt "label" (body.level :: body.outer) depth).arity

def results (body : Body) : Nat := ((body.level :: body.outer).getLast?.map (·.type.results)).getD 0

def step (body : Body) : Op Nat → Checked Body
  | .simple .unreachable => body.leave 0 (.simple .unreachable)
  | .simple .ret => body.leave body.results (.simple .ret)
  | .simple op => do
    ensure (!op.usesMemory || 0 < body.context.memories) (.unknown "memory" 0)
    body.use op.type (.simple op)
  | .localGet i => do
    ensure (i < body.locals) (.unknown "local" i)
    body.use ⟨0, 1⟩ (.localGet i)
  | .localSet i => do
    ensure (i < body.locals) (.unknown "local" i)
    body.use ⟨1, 0⟩ (.localSet i)
  | .localTee i => do
    ensure (i < body.locals) (.unknown "local" i)
    body.use ⟨1, 1⟩ (.localTee i)
  | .globalGet i => do
    let _ ← itemAt "global" body.context.globals i
    body.use ⟨0, 1⟩ (.globalGet i)
  | .globalSet i => do
    let isMut ← itemAt "global" body.context.globals i
    ensure isMut (.immutableGlobal i)
    body.use ⟨1, 0⟩ (.globalSet i)
  | .call f => do
    body.use (← itemAt "function" body.context.funcs f) (.call f)
  | .callIndirect table use => do
    let table := table.getD 0
    let type ← body.context.typeOf use
    ensure (table < body.context.tables) (.unknown "table" table)
    body.use ⟨type.params + 1, type.results⟩ (.callIndirect table type)
  | .block _ use => do body.enter .block (← body.context.typeOf use)
  | .loop _ use => do body.enter .loop (← body.context.typeOf use)
  | .ifThen _ use => do
    let type ← body.context.typeOf use
    let body := { body with level := ← body.level.pop 1 }
    body.enter .yes type
  | .otherwise => do
    match body.level.opening with
    | .yes =>
      let yes ← body.level.close
      return { body with level := .ofBlock (.no yes) body.level.type }
    | _ => .error .misplacedEnd
  | .finish => do
    let i ← body.level.toInstr
    match body.outer with
    | [] => .error .misplacedEnd
    | level :: outer => return { body with level := (level.push body.level.type.results).emit i, outer }
  | .br depth => do
    body.leave (← body.branchArity depth) (.br depth)
  | .brIf depth => do
    let arity ← body.branchArity depth
    body.use ⟨arity + 1, arity⟩ (.brIf depth)

/-- The instructions of a body with some results, blocks with their bodies in them. -/
def check (context : Context) (locals results : Nat) (ops : List (Op Nat)) : Checked (List Instr) := do
  let start : Body := ⟨context, locals, ⟨.body, ⟨0, results⟩, 0, false, []⟩, []⟩
  let body ← ops.foldlM step start
  ensure body.outer.isEmpty .misplacedEnd
  body.level.close

end Body

/-! ## Modules -/

/-- Whether instructions compute a word from constants and from imported globals that never
change. -/
def isConstant (imported : List Bool) (ops : List (Op Nat)) : Bool :=
  ops.all fun
    | .simple (.const _) => true
    | .simple (.binary .add) | .simple (.binary .sub) | .simple (.binary .mul) => true
    | .globalGet i => imported[i]? == some false
    | _ => false

/-- The instructions of an expression that is computed when a module is instantiated. -/
def checkConstant (context : Context) (imported : List Bool) (ops : List (Op Nat)) :
    Checked (List Instr) := do
  ensure (isConstant imported ops) .notConstant
  Body.check context 0 1 ops

/-- The most items that a table is declared with. -/
def maxTableItems : Nat := 10000000

/-- Checks declared sizes against the most that are allowed. -/
def Limits.check (limits : Limits) (most : Nat) : Checked Unit :=
  ensure (limits.min ≤ most && limits.max.all fun max => limits.min ≤ max) .sizeLimits

def importType (types : List FuncType) : Wat.CoreItem Nat → Checked ExternType
  | .func use => return .func (← Context.typeOf ⟨types, [], 0, 0, []⟩ use)
  | .table limits => do
    limits.check maxTableItems
    return .table limits
  | .memory limits => do
    limits.check maxPages
    ensure (limits.max.all (· ≤ maxPages)) .sizeLimits
    return .memory limits
  | .global isMut => return .global isMut

/-- The types of all functions, tables, memories and globals of a module, imported ones first. -/
structure Catalog where
  types : List FuncType
  imports : List Import
  funcs : List FuncType
  tables : List Limits
  memories : List Limits
  globals : List Bool
  deriving Repr

namespace Catalog

def ofFields (fields : List (Wat.Field Nat)) : Checked Catalog := do
  let types := fields.filterMap fun | .type _ signature => some signature.type | _ => none
  let context : Context := ⟨types, [], 0, 0, []⟩
  let imports ← (fields.filterMap fun
    | .import _ module name _ _ item => some (module, name, item)
    | _ => none).mapM fun (module, name, item) => return ⟨module, name, ← importType types item⟩
  let own ← (fields.filterMap fun | .func _ _ use _ _ => some use | _ => none).mapM context.typeOf
  let tables := fields.filterMap fun | .table _ _ limits => some limits | _ => none
  tables.forM (·.check maxTableItems)
  let memories := fields.filterMap fun | .memory _ _ limits => some limits | _ => none
  memories.forM fun limits => do
    limits.check maxPages
    ensure (limits.max.all (· ≤ maxPages)) .sizeLimits
  let globals := fields.filterMap fun | .global _ _ isMut _ => some isMut | _ => none
  return {
    types, imports
    funcs := imports.filterMap (fun | ⟨_, _, .func type⟩ => some type | _ => none) ++ own
    tables := imports.filterMap (fun | ⟨_, _, .table limits⟩ => some limits | _ => none) ++ tables
    memories := imports.filterMap (fun | ⟨_, _, .memory limits⟩ => some limits | _ => none) ++ memories
    globals := imports.filterMap (fun | ⟨_, _, .global isMut⟩ => some isMut | _ => none) ++ globals }

def context (catalog : Catalog) : Context :=
  ⟨catalog.types, catalog.funcs, catalog.tables.length, catalog.memories.length, catalog.globals⟩

def importedGlobals (catalog : Catalog) : List Bool :=
  catalog.imports.filterMap fun | ⟨_, _, .global isMut⟩ => some isMut | _ => none

def typeOf (catalog : Catalog) (kind : Kind) (i : Nat) : Checked ExternType :=
  match kind with
  | .func => ExternType.func <$> itemAt "function" catalog.funcs i
  | .table => ExternType.table <$> itemAt "table" catalog.tables i
  | .memory => ExternType.memory <$> itemAt "memory" catalog.memories i
  | .global => ExternType.global <$> itemAt "global" catalog.globals i

end Catalog

/-- How many things of each kind the fields before some field define. -/
structure Tally where
  funcs : Nat
  tables : Nat
  memories : Nat
  globals : Nat

namespace Tally

def of (tally : Tally) : Kind → Nat
  | .func => tally.funcs
  | .table => tally.tables
  | .memory => tally.memories
  | .global => tally.globals

def add (tally : Tally) : Kind → Tally
  | .func => { tally with funcs := tally.funcs + 1 }
  | .table => { tally with tables := tally.tables + 1 }
  | .memory => { tally with memories := tally.memories + 1 }
  | .global => { tally with globals := tally.globals + 1 }

end Tally

def kindOf {ρ : Type} : Wat.CoreItem ρ → Kind
  | .func _ => .func
  | .table _ => .table
  | .memory _ => .memory
  | .global _ => .global

/-- The kind of what a field defines, and the names under which it is exported on the spot. -/
def inlineExports : Wat.Field Nat → Option (Kind × List String)
  | .import _ _ _ _ exports item => some (kindOf item, exports)
  | .func _ exports _ _ _ => some (.func, exports)
  | .table _ exports _ => some (.table, exports)
  | .memory _ exports _ => some (.memory, exports)
  | .global _ exports _ _ => some (.global, exports)
  | _ => none

/-- The exports of fields, in the order in which they are written. -/
def exportsOf (tally : Tally) : List (Wat.Field Nat) → List (String × Kind × Nat)
  | [] => []
  | .export name kind index :: rest => (name, kind, index) :: exportsOf tally rest
  | field :: rest =>
    match inlineExports field with
    | none => exportsOf tally rest
    | some (kind, names) =>
      names.map (fun name => (name, kind, tally.of kind)) ++ exportsOf (tally.add kind) rest

/-- The first item that comes twice in a list. -/
def repeated? {α : Type} [BEq α] : List α → Option α
  | [] => none
  | x :: xs => if xs.contains x then some x else repeated? xs

def checkFunc (context : Context) (use : TypeUse Nat) (locals : Nat) (body : List (Op Nat)) :
    Checked Func := do
  let type ← context.typeOf use
  return ⟨type, locals, ← Body.check context (type.params + locals) type.results body⟩

def Module.check (fields : List (Wat.Field Nat)) : Checked Module := do
  let catalog ← Catalog.ofFields fields
  let context := catalog.context
  let imported := catalog.importedGlobals
  match repeated? (catalog.imports.map fun i => (i.module, i.name)) with
  | some (module, name) => throw (.duplicateImport module name)
  | none => pure ()
  let exports := exportsOf ⟨0, 0, 0, 0⟩ fields
  let exportTypes ← exports.mapM fun (name, kind, i) => return (name, ← catalog.typeOf kind i)
  match repeated? (exports.map Prod.fst) with
  | some name => throw (.duplicateExport name)
  | none => pure ()
  let start := (fields.filterMap fun | .start f => some f | _ => none).head?
  match start with
  | none => pure ()
  | some f =>
    let type ← itemAt "function" catalog.funcs f
    ensure (type = ⟨0, 0⟩) .startType
  let globals ← (fields.filterMap fun
    | .global _ _ isMut init => some (isMut, init)
    | _ => none).mapM fun (isMut, init) => return ⟨isMut, ← checkConstant context imported init⟩
  let funcs ← (fields.filterMap fun
    | .func _ _ use locals body => some (use, locals.length, body)
    | _ => none).mapM fun (use, locals, body) => checkFunc context use locals body
  let data ← (fields.filterMap fun
    | .data _ memory place bytes => some (memory.getD 0, place, bytes)
    | _ => none).mapM fun (memory, place, bytes) => do
      let _ ← itemAt "memory" catalog.memories memory
      return ⟨memory, ← checkConstant context imported place, bytes⟩
  return {
    imports := catalog.imports
    funcs
    tables := fields.filterMap fun | .table _ _ limits => some limits | _ => none
    memories := fields.filterMap fun | .memory _ _ limits => some limits | _ => none
    globals, exports, exportTypes, start, data }

end ComponentHost.Core
