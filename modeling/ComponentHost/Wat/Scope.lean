import ComponentHost.Wat.ComponentReader

/-!
Replacing names by numbers. Things of one kind are numbered in the order in which they are defined. In
a core module all names are known everywhere; in a component a name is known behind its definition,
and a reference through an instance's export defines one more thing just before the field that has it.
-/
set_option autoImplicit false

namespace ComponentHost.Wat

/-- The things of one kind that are known: how many, and the numbers of those with names. -/
structure Space where
  count : Nat
  names : List (String × Nat)

namespace Space

def empty : Space := ⟨0, []⟩

/-- One more thing. A second one of the same name is a fault. -/
def add (space : Space) (kind : String) (id : Option Id) : Except Fault Space :=
  match id with
  | none => .ok { space with count := space.count + 1 }
  | some id =>
    if (space.names.lookup id.name).isSome then .error ⟨s!"duplicate {kind} identifier", id.offset⟩
    else .ok ⟨space.count + 1, (id.name, space.count) :: space.names⟩

/-- The number that a reference stands for; a number stands for itself. -/
def find (space : Space) (kind : String) (ref : Ref) : Except Fault Nat :=
  match ref with
  | .index n => .ok n
  | .id id =>
    match space.names.lookup id.name with
    | some n => .ok n
    | none => .error ⟨s!"unknown {kind}: failed to find name \x60${id.name}\x60", id.offset⟩

end Space

/-! ## Core modules -/

/-- The things that are known in a core module. -/
structure CoreScope where
  types : Space
  funcs : Space
  tables : Space
  memories : Space
  globals : Space

namespace CoreScope

def empty : CoreScope := ⟨.empty, .empty, .empty, .empty, .empty⟩

/-- The scope with what a field defines. A data segment defines nothing that could be referred to. -/
def add (scope : CoreScope) (field : Field Ref) : Except Fault CoreScope := do
  match field with
  | .type id _ => return { scope with types := ← scope.types.add "type" id }
  | .import _ _ _ id _ (.func _) | .func id _ _ _ _ =>
    return { scope with funcs := ← scope.funcs.add "func" id }
  | .import _ _ _ id _ (.table _) | .table id _ _ =>
    return { scope with tables := ← scope.tables.add "table" id }
  | .import _ _ _ id _ (.memory _) | .memory id _ _ =>
    return { scope with memories := ← scope.memories.add "memory" id }
  | .import _ _ _ id _ (.global _) | .global id _ _ _ =>
    return { scope with globals := ← scope.globals.add "global" id }
  | .export _ _ _ | .start _ | .data _ _ _ _ => return scope

def typeUse (scope : CoreScope) (use : TypeUse Ref) : Except Fault (TypeUse Nat) := do
  match use.index with
  | none => return ⟨none, use.inline⟩
  | some ref => return ⟨some (← scope.types.find "type" ref), use.inline⟩

/-- The number of enclosing blocks inside the one that a reference names. -/
def label (labels : List (Option Id)) (ref : Ref) : Except Fault Nat :=
  match ref with
  | .index n => .ok n
  | .id id =>
    match labels.findIdx? fun label => label.any (·.name == id.name) with
    | some n => .ok n
    | none => .error ⟨s!"unknown label: failed to find name \x60${id.name}\x60", id.offset⟩

def ops (scope : CoreScope) (locals : Space) :
    List (Option Id) → List (Op Ref) → Except Fault (List (Op Nat))
  | _, [] => .ok []
  | labels, op :: rest => do
    let (labels, op) ← match op with
      | .simple op => pure (labels, .simple op)
      | .localGet ref => pure (labels, .localGet (← locals.find "local" ref))
      | .localSet ref => pure (labels, .localSet (← locals.find "local" ref))
      | .localTee ref => pure (labels, .localTee (← locals.find "local" ref))
      | .globalGet ref => pure (labels, .globalGet (← scope.globals.find "global" ref))
      | .globalSet ref => pure (labels, .globalSet (← scope.globals.find "global" ref))
      | .call ref => pure (labels, .call (← scope.funcs.find "func" ref))
      | .callIndirect table use =>
        let table ← table.mapM (scope.tables.find "table")
        pure (labels, .callIndirect table (← scope.typeUse use))
      | .block id use => pure (id :: labels, .block id (← scope.typeUse use))
      | .loop id use => pure (id :: labels, .loop id (← scope.typeUse use))
      | .ifThen id use => pure (id :: labels, .ifThen id (← scope.typeUse use))
      | .otherwise => pure (labels, .otherwise)
      | .finish => pure (labels.tail, .finish)
      | .br ref => pure (labels, .br (← label labels ref))
      | .brIf ref => pure (labels, .brIf (← label labels ref))
    return op :: (← scope.ops locals labels rest)

def space (scope : CoreScope) : Core.Kind → Space × String
  | .func => (scope.funcs, "func")
  | .table => (scope.tables, "table")
  | .memory => (scope.memories, "memory")
  | .global => (scope.globals, "global")

/-- The parameters of the types that a module declares, as far as they are known by number. -/
def paramsOf (fields : List (Field Ref)) (use : TypeUse Nat) : List (Option Id) :=
  match use.inline, use.index with
  | some signature, _ => signature.params
  | none, none => []
  | none, some n =>
    let declared := fields.filterMap fun | .type _ signature => some signature | _ => none
    (declared[n]?.map fun signature => signature.params.map fun _ => none).getD []

def field (scope : CoreScope) (fields : List (Field Ref)) (field : Field Ref) :
    Except Fault (Field Nat) := do
  match field with
  | .type id signature => return .type id signature
  | .import offset module name id exports (.func use) =>
    return .import offset module name id exports (.func (← scope.typeUse use))
  | .import offset module name id exports (.table limits) =>
    return .import offset module name id exports (.table limits)
  | .import offset module name id exports (.memory limits) =>
    return .import offset module name id exports (.memory limits)
  | .import offset module name id exports (.global isMut) =>
    return .import offset module name id exports (.global isMut)
  | .func id exports use locals body =>
    let use ← scope.typeUse use
    let locals' ← (paramsOf fields use ++ locals).foldlM (·.add "local" ·) Space.empty
    return .func id exports use locals (← scope.ops locals' [] body)
  | .table id exports limits => return .table id exports limits
  | .memory id exports limits => return .memory id exports limits
  | .global id exports isMut init => return .global id exports isMut (← scope.ops .empty [] init)
  | .export name kind ref =>
    let (space, word) := scope.space kind
    return .export name kind (← space.find word ref)
  | .start ref => return .start (← scope.funcs.find "func" ref)
  | .data id memory place bytes =>
    let memory ← memory.mapM (scope.memories.find "memory")
    return .data id memory (← scope.ops .empty [] place) bytes

end CoreScope

/-- What a field is, for the rule that imports come first; none for a field to which it does not
apply. -/
def Field.rank? : Field Ref → Option String
  | .func _ _ _ _ _ => some "function"
  | .table _ _ _ => some "table"
  | .memory _ _ _ => some "memory"
  | .global _ _ _ _ => some "global"
  | _ => none

/-- Checks that no import comes behind something that is defined. -/
def importsFirst : Option String → List (Field Ref) → Except Fault Unit
  | _, [] => .ok ()
  | some last, .import offset _ _ _ _ _ :: _ => .error ⟨s!"import after {last}", offset⟩
  | last, field :: rest => importsFirst (field.rank?.or last) rest

def resolveModule (fields : List (Field Ref)) : Except Fault (List (Field Nat)) := do
  importsFirst none fields
  let scope ← fields.foldlM CoreScope.add .empty
  fields.mapM (scope.field fields)

/-! ## Components -/

/-- The things that are known in a component, and the fields that have to be put before the one that
is being read, the last first. -/
structure Scope where
  coreFuncs : Space
  coreTables : Space
  coreMemories : Space
  coreGlobals : Space
  coreInstances : Space
  modules : Space
  funcs : Space
  instances : Space
  components : Space
  types : Space
  inserted : List (Definition Nat)

namespace Scope

def empty : Scope :=
  ⟨.empty, .empty, .empty, .empty, .empty, .empty, .empty, .empty, .empty, .empty, []⟩

/-- A step that knows a scope and may change it. -/
abbrev Step : Type → Type := StateT Scope (Except Fault)

def addCore (kind : Core.Kind) (id : Option Id) : Step Unit := do
  let scope ← get
  match kind with
  | .func => set { scope with coreFuncs := ← scope.coreFuncs.add "core func" id }
  | .table => set { scope with coreTables := ← scope.coreTables.add "core table" id }
  | .memory => set { scope with coreMemories := ← scope.coreMemories.add "core memory" id }
  | .global => set { scope with coreGlobals := ← scope.coreGlobals.add "core global" id }

def addRole (role : Role) (id : Option Id) : Step Unit := do
  let scope ← get
  match role with
  | .func => set { scope with funcs := ← scope.funcs.add "func" id }
  | .interface => set { scope with instances := ← scope.instances.add "instance" id }
  | .module => set { scope with modules := ← scope.modules.add "core module" id }
  | .component => set { scope with components := ← scope.components.add "component" id }
  | .type => set { scope with types := ← scope.types.add "type" id }

def addCoreInstance (id : Option Id) : Step Unit := do
  let scope ← get
  set { scope with coreInstances := ← scope.coreInstances.add "core instance" id }

def findCore (kind : Core.Kind) (ref : Ref) : Step Nat := do
  let scope ← get
  match kind with
  | .func => scope.coreFuncs.find "core func" ref
  | .table => scope.coreTables.find "core table" ref
  | .memory => scope.coreMemories.find "core memory" ref
  | .global => scope.coreGlobals.find "core global" ref

def findRole (role : Role) (ref : Ref) : Step Nat := do
  let scope ← get
  match role with
  | .func => scope.funcs.find "func" ref
  | .interface => scope.instances.find "instance" ref
  | .module => scope.modules.find "core module" ref
  | .component => scope.components.find "component" ref
  | .type => scope.types.find "type" ref

def findCoreInstance (ref : Ref) : Step Nat := do
  (← get).coreInstances.find "core instance" ref

/-- Puts a field before the one that is being read. -/
def insert (definition : Definition Nat) : Step Unit :=
  modify fun scope => { scope with inserted := definition :: scope.inserted }

/-- The number of a core thing of a kind that is referred to. -/
def coreRef (kind : Core.Kind) (r : CoreRef Ref) : Step (CoreRef Nat) := do
  match r.name with
  | none => return ⟨← findCore kind r.index, none⟩
  | some name =>
    let owner ← findCoreInstance r.index
    let scope ← get
    let next := match kind with
      | .func => scope.coreFuncs.count
      | .table => scope.coreTables.count
      | .memory => scope.coreMemories.count
      | .global => scope.coreGlobals.count
    addCore kind none
    insert (.coreAlias kind owner name)
    return ⟨next, none⟩

def nextOf (role : Role) : Step Nat := do
  let scope ← get
  return match role with
    | .func => scope.funcs.count
    | .interface => scope.instances.count
    | .module => scope.modules.count
    | .component => scope.components.count
    | .type => scope.types.count

/-- Follows names from an instance; the last leads to a thing of a role. -/
def follow (role : Role) (owner : Nat) : List String → Step Nat
  | [] => return owner
  | [name] => do
    let next ← nextOf role
    addRole role none
    insert (.alias role owner name)
    return next
  | name :: names => do
    let next ← nextOf .interface
    addRole .interface none
    insert (.alias .interface owner name)
    follow role next names

/-- The number of a thing of a role that is referred to. -/
def itemRef (role : Role) (r : ItemRef Ref) : Step (ItemRef Nat) := do
  match r.names with
  | [] => return ⟨← findRole role r.index, []⟩
  | names => return ⟨← follow role (← findRole .interface r.index) names, []⟩

mutual

def valType : ValType Ref → Step (ValType Nat)
  | .scalar type => return .scalar type
  | .string => return .string
  | .list item => return .list (← valType item)
  | .option item => return .option (← valType item)
  | .tuple items => return .tuple (← valTypes items)
  | .record fields => return .record (← fieldTypes fields)
  | .named r => return .named (← findRole .type r)

def valTypes : List (ValType Ref) → Step (List (ValType Nat))
  | [] => return []
  | t :: ts => return (← valType t) :: (← valTypes ts)

def fieldTypes : List (String × ValType Ref) → Step (List (String × ValType Nat))
  | [] => return []
  | (name, t) :: ts => return (name, ← valType t) :: (← fieldTypes ts)

end

def funcType (type : FuncType Ref) : Step (FuncType Nat) := do
  let params ← fieldTypes type.params
  match type.result with
  | none => return ⟨params, none⟩
  | some result => return ⟨params, some (← valType result)⟩

def funcUse : FuncUse Ref → Step (FuncUse Nat)
  | .inline type => return .inline (← funcType type)
  | .named r => return .named (← findRole .type r)

def typeDef : TypeDef Ref → Step (TypeDef Nat)
  | .value type => return .value (← valType type)
  | .func type => return .func (← funcType type)
  | .other => return .other

mutual

def item : Item Ref → Step (Item Nat)
  | .func use => return .func (← funcUse use)
  | .interface exports => return .interface (← items exports)
  | .module => return .module
  | .component => return .component
  | .type => return .type

/-- The types of an imported instance's exports with numbers. -/
def items : List (String × Item Ref) → Step (List (String × Item Nat))
  | [] => return []
  | (name, i) :: rest => return (name, ← item i) :: (← items rest)

end

def roleOf {ρ : Type} : Item ρ → Role
  | .func _ => .func
  | .interface _ => .interface
  | .module => .module
  | .component => .component
  | .type => .type

def options (os : List (CallOption Ref)) : Step (List (CallOption Nat)) :=
  os.mapM fun
    | .memory r => return .memory (← coreRef .memory r)
    | .realloc r => return .realloc (← coreRef .func r)
    | .postReturn r => return .postReturn (← coreRef .func r)
    | .utf8 => return .utf8

def coreExports (es : List (String × Core.Kind × CoreRef Ref)) :
    Step (List (String × Core.Kind × CoreRef Nat)) :=
  es.mapM fun (name, kind, r) => return (name, kind, ← coreRef kind r)

/-- Defines the instances that arguments bundle on the spot, and leaves only references. -/
def bundles (args : List (String × CoreArg Ref)) : Step (List (String × (Ref ⊕ Nat))) :=
  args.mapM fun
    | (name, .given r) => return (name, .inl r)
    | (name, .bundle es) => do
      let exports ← coreExports es
      let next := (← get).coreInstances.count
      addCoreInstance none
      insert (.coreBundle none exports)
      return (name, .inr next)

/-- One more thing of a role, and its exports under names on the spot; each of them is one more thing
again. -/
def declare (role : Role) (id : Option Id) (names : List String) : Step (List (Definition Nat)) := do
  let own ← nextOf role
  addRole role id
  names.mapM fun name => do
    addRole role none
    return .export none name role ⟨own, []⟩

mutual

/-- The fields that a field stands for, with numbers. -/
def definition : Definition Ref → Step (List (Definition Nat))
  | .import name id i => do
    let i ← item i
    addRole (roleOf i) id
    return [.import name id i]
  | .coreModule id names fields => do
    let fields ← resolveModule fields
    return .coreModule id [] fields :: (← declare .module id names)
  | .coreInstantiate id module args => do
    let args ← bundles args
    let module ← findRole .module module
    let args ← args.mapM fun
      | (name, .inl r) => return (name, .given (← findCoreInstance r))
      | (name, .inr n) => return (name, .given n)
    addCoreInstance id
    return [.coreInstantiate id module args]
  | .coreBundle id es => do
    let exports ← coreExports es
    addCoreInstance id
    return [.coreBundle id exports]
  | .coreAlias kind r name => do
    let owner ← findCoreInstance r
    addCore kind none
    return [.coreAlias kind owner name]
  | .lower id func os => do
    let os ← options os
    let func ← itemRef .func func
    addCore .func id
    return [.lower id func os]
  | .lift id names use func os => do
    let use ← funcUse use
    let func ← coreRef .func func
    let os ← options os
    return .lift id [] use func os :: (← declare .func id names)
  | .interface id names es => do
    let exports ← es.mapM fun (name, role, r) => return (name, role, ← itemRef role r)
    return .interface id [] exports :: (← declare .interface id names)
  | .alias role r name => do
    let owner ← findRole .interface r
    addRole role none
    return [.alias role owner name]
  | .component id names inner => do
    let outer ← get
    set Scope.empty
    let inner ← definitions inner
    set outer
    return .component id [] inner :: (← declare .component id names)
  | .type id names type => do
    let type ← typeDef type
    return .type id [] type :: (← declare .type id names)
  | .export id name role r => do
    let r ← itemRef role r
    addRole role id
    return [.export id name role r]

/-- Fields with numbers, each behind those that it needs inserted. -/
def definitions : List (Definition Ref) → Step (List (Definition Nat))
  | [] => return []
  | d :: ds => do
    let own ← definition d
    let inserted := (← get).inserted.reverse
    modify fun scope => { scope with inserted := [] }
    return inserted ++ own ++ (← definitions ds)

end

end Scope

def Source.resolve : Source Ref → Except Fault (Source Nat)
  | .module fields => return .module (← resolveModule fields)
  | .component ds => return .component (← (Scope.definitions ds).run' .empty)

def Source.parse (text : String) : Except Fault (Source Nat) := do
  (← Source.read text).resolve

end ComponentHost.Wat
