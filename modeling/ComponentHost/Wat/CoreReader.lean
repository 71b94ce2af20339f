import ComponentHost.Wat.Syntax
import ComponentHost.Wat.Reader

/-!
Reading core modules. Instructions are read in the order in which they run: an instruction in
parentheses comes behind the instructions in it, and a block in parentheses ends with them.
-/
set_option autoImplicit false

namespace ComponentHost.Wat.Reader

def id? : Reader (Option Id) := do
  match ← ahead 0 with
  | some (.id name) =>
    if name.isEmpty then fail "empty identifier"
    let offset ← place
    advance
    return some ⟨name, offset⟩
  | _ => return none

def ref : Reader Ref := do
  match ← id? with
  | some id => return .id id
  | none =>
    match ← number? with
    | some n => return .index n
    | none => fail "unexpected token, expected an identifier or u32"

def ref? : Reader (Option Ref) := do
  match ← ahead 0 with
  | some (.id _) | some (.integer _ _) => return some (← ref)
  | _ => return none

/-! ## Types -/

def wordType : Reader Unit := do
  if ← isKeyword "i32" 0 then advance else fail "unexpected token, expected a value type"

/-- Reads the names and types of parameters or locals behind their keyword. -/
def declared : Reader (List (Option Id)) := do
  if ← atEnd then return []
  match ← id? with
  | some id => wordType; return [some id]
  | none => return (← rest wordType).map fun _ => none

def signature : Reader Signature := do
  let parts ← whileM (do return (← isKeyword "param" 1) || (← isKeyword "result" 1))
    (parens do
      if ← isKeyword "param" 0 then
        advance
        return (some (← declared), 0)
      else
        keyword "result"
        return (none, (← rest wordType).length)) (← bound)
  return ⟨(parts.filterMap Prod.fst).flatten, parts.foldl (fun n part => n + part.2) 0⟩

def typeUse : Reader (TypeUse Ref) := do
  let index ← if ← isKeyword "type" 1 then some <$> parens (do keyword "type"; ref) else pure none
  let hasInline := (← isKeyword "param" 1) || (← isKeyword "result" 1)
  let inline ← if hasInline then some <$> signature else pure none
  return ⟨index, inline⟩

def limits : Reader Core.Limits := do
  if ← isKeyword "i32" 0 then advance
  return ⟨← number, ← number?⟩

/-! ## Instructions -/

/-- The instructions that are a keyword and nothing else. -/
def simpleOps : List (String × Core.Simple) :=
  [("i32.eqz", .unary .eqz), ("i32.clz", .unary .clz), ("i32.ctz", .unary .ctz),
   ("i32.popcnt", .unary .popcnt), ("i32.extend8_s", .unary .extendByte),
   ("i32.extend16_s", .unary .extendHalf), ("i32.add", .binary .add), ("i32.sub", .binary .sub),
   ("i32.mul", .binary .mul), ("i32.div_s", .binary .divS), ("i32.div_u", .binary .divU),
   ("i32.rem_s", .binary .remS), ("i32.rem_u", .binary .remU), ("i32.and", .binary .and),
   ("i32.or", .binary .or), ("i32.xor", .binary .xor), ("i32.shl", .binary .shl),
   ("i32.shr_s", .binary .shrS), ("i32.shr_u", .binary .shrU), ("i32.rotl", .binary .rotl),
   ("i32.rotr", .binary .rotr), ("i32.eq", .binary .eq), ("i32.ne", .binary .ne),
   ("i32.lt_s", .binary .ltS), ("i32.lt_u", .binary .ltU), ("i32.gt_s", .binary .gtS),
   ("i32.gt_u", .binary .gtU), ("i32.le_s", .binary .leS), ("i32.le_u", .binary .leU),
   ("i32.ge_s", .binary .geS), ("i32.ge_u", .binary .geU), ("memory.size", .memorySize),
   ("memory.grow", .memoryGrow), ("memory.copy", .memoryCopy), ("memory.fill", .memoryFill),
   ("drop", .drop), ("select", .select), ("nop", .nop), ("unreachable", .unreachable),
   ("return", .ret)]

def loadOps : List (String × Core.Load) :=
  [("i32.load", .word), ("i32.load8_s", .byteS), ("i32.load8_u", .byteU), ("i32.load16_s", .halfS),
   ("i32.load16_u", .halfU)]

def storeOps : List (String × Core.Store) :=
  [("i32.store", .word), ("i32.store8", .byte), ("i32.store16", .half)]

/-- Reads a number that is attached to a word and an equals sign, if that word comes next. -/
def attached? (word : String) : Reader (Option Nat) := do
  match ← ahead 0 with
  | some (.keyword text) =>
    let start := word.toList ++ ['=']
    if start.isPrefixOf text.toList then
      match integer? (text.toList.drop start.length) with
      | some (.integer false n) =>
        if n < UInt32.size then advance; return some n
        else fail "offset must be less than 2^32"
      | _ => fail "unknown operator or unexpected token"
    else return none
  | _ => return none

/-- Reads the offset and alignment of a memory access of so many bytes. -/
def access (bytes : Nat) : Reader Nat := do
  let offset := (← attached? "offset").getD 0
  match ← attached? "align" with
  | none => return offset
  | some align =>
    if align = bytes ∨ align = 1 ∨ (align = 2 ∧ 2 ≤ bytes) then return offset
    else fail "alignment must be a power of two"

def op : Reader (Op Ref) := do
  match ← ahead 0 with
  | some (.keyword text) =>
    let known := (text ∈ ["i32.const", "local.get", "local.set", "local.tee", "global.get",
      "global.set", "call", "call_indirect", "block", "loop", "if", "else", "end", "br", "br_if"])
      || simpleOps.any (·.1 == text) || loadOps.any (·.1 == text) || storeOps.any (·.1 == text)
    if !known then fail "unknown operator or unexpected token"
    advance
    match text with
    | "i32.const" => return .simple (.const (← word))
    | "local.get" => return .localGet (← ref)
    | "local.set" => return .localSet (← ref)
    | "local.tee" => return .localTee (← ref)
    | "global.get" => return .globalGet (← ref)
    | "global.set" => return .globalSet (← ref)
    | "call" => return .call (← ref)
    | "call_indirect" => return .callIndirect (← ref?) (← typeUse)
    | "block" => return .block (← id?) (← typeUse)
    | "loop" => return .loop (← id?) (← typeUse)
    | "if" => return .ifThen (← id?) (← typeUse)
    | "else" => let _ ← id?; return .otherwise
    | "end" => let _ ← id?; return .finish
    | "br" => return .br (← ref)
    | "br_if" => return .brIf (← ref)
    | _ =>
      match loadOps.lookup text with
      | some kind => return .simple (.load kind (← access kind.bytes))
      | none =>
        match storeOps.lookup text with
        | some kind => return .simple (.store kind (← access kind.bytes))
        | none => return .simple ((simpleOps.lookup text).getD .nop)
  | _ => fail "expected an instruction"

inductive Level where
  /-- A list whose end is followed by an instruction. -/
  | endWith (op : Op Ref)
  /-- The condition of an `if`. -/
  | condition (op : Op Ref)
  /-- An `if` that has its first branch. -/
  | afterThen
  /-- An `if` that has both branches. -/
  | afterElse
  /-- A branch of an `if`. -/
  | arm

def Level.isIf : Level → Bool
  | .condition _ | .afterThen | .afterElse => true
  | _ => false

/-- Reads the instruction behind an opening parenthesis: what it adds to the instructions read so
far, which stand in reverse, and what is open behind it. -/
def openList (levels : List Level) (before : List (Op Ref)) : Reader (List Level × List (Op Ref)) := do
  match levels with
  | .condition branch :: outer =>
    if ← isKeyword "then" 0 then
      advance
      return (.arm :: .afterThen :: outer, branch :: before)
  | .afterThen :: outer =>
    keyword "else"
    return (.arm :: .afterElse :: outer, .otherwise :: before)
  | .afterElse :: _ => fail "unexpected token: too many payloads inside of \x60(if)\x60"
  | _ => pure ()
  match ← op with
  | .block label type => return (.endWith .finish :: levels, .block label type :: before)
  | .loop label type => return (.endWith .finish :: levels, .loop label type :: before)
  | .ifThen label type => return (.condition (.ifThen label type) :: levels, before)
  | other => return (.endWith other :: levels, before)

/-- What a closing parenthesis adds to the instructions read so far. -/
def closeList (level : Level) (before : List (Op Ref)) : Reader (List (Op Ref)) :=
  match level with
  | .endWith op => return op :: before
  | .arm => return before
  | .condition _ => fail "previous \x60if\x60 had no \x60then\x60"
  | .afterThen | .afterElse => return .finish :: before

/-- Reads instructions up to the end of the list that holds them. -/
def ops : Nat → List Level → List (Op Ref) → Reader (List (Op Ref))
  | 0, _, before => return before.reverse
  | fuel + 1, levels, before => do
    let isDone ← atEnd
    if isDone && levels.isEmpty then return before.reverse
    if levels.head?.any Level.isIf && !isDone then
      if (← ahead 0) ≠ some .openParen then fail "expected \x60(\x60"
    match ← ahead 0, levels with
    | some .openParen, _ =>
      advance
      let (levels, before) ← openList levels before
      ops fuel levels before
    | some .closeParen, level :: outer =>
      advance
      ops fuel outer (← closeList level before)
    | _, _ => ops fuel levels ((← op) :: before)

/-- Reads instructions up to the end of the list that holds them. -/
def expression : Reader (List (Op Ref)) := do
  ops (2 * (← bound)) [] []

/-! ## Fields -/

/-- Whether a name comes next under which something is exported on the spot. -/
def hasInlineExport : Reader Bool := do
  if !(← isKeyword "export" 1) then return false
  match ← ahead 2 with
  | some (.string _) => return (← ahead 3) = some .closeParen
  | _ => return false

/-- Reads the names under which something is exported on the spot. -/
def inlineExports : Reader (List String) := do
  whileM hasInlineExport (parens do keyword "export"; text) (← bound)

/-- Reads the names from which something is imported on the spot, if they come next. -/
def inlineImport? : Reader (Option (String × String)) := do
  if !(← isKeyword "import" 1) then return none
  match ← ahead 2 with
  | some (.string _) =>
    let names ← parens do
      keyword "import"
      return (← text, ← text)
    return some names
  | _ => return none

def globalType : Reader Bool := do
  if ← isKeyword "mut" 1 then
    parens do keyword "mut"; wordType
    return true
  else
    wordType
    return false

/-- Reads the type of the items of a table. -/
def itemType : Reader Unit := do
  if ← isKeyword "funcref" 0 then advance else fail "unexpected token, expected a reference type"

/-- Reads what an import stands for, with its name. -/
def coreItem : Reader (Option Id × CoreItem Ref) := do
  if ← isKeyword "func" 0 then
    advance
    return (← id?, .func (← typeUse))
  else if ← isKeyword "memory" 0 then
    advance
    return (← id?, .memory (← limits))
  else if ← isKeyword "global" 0 then
    advance
    return (← id?, .global (← globalType))
  else if ← isKeyword "table" 0 then
    advance
    let id ← id?
    let size ← limits
    itemType
    return (id, .table size)
  else fail "unexpected token, expected one of: \x60func\x60, \x60table\x60, \x60memory\x60, \x60global\x60"

def coreKind : Reader Core.Kind := do
  if ← isKeyword "func" 0 then advance; return .func
  else if ← isKeyword "memory" 0 then advance; return .memory
  else if ← isKeyword "global" 0 then advance; return .global
  else if ← isKeyword "table" 0 then advance; return .table
  else fail "unexpected token, expected one of: \x60func\x60, \x60table\x60, \x60memory\x60, \x60global\x60"

/-- Reads where the bytes of a data segment go. -/
def dataPlace : Reader (List (Op Ref)) :=
  parens do
    if ← isKeyword "offset" 0 then
      advance
      expression
    else
      let first ← op
      return first :: (← expression)

def coreField : Reader (Field Ref) := do
  let offset ← place
  if ← isKeyword "type" 0 then
    advance
    let id ← id?
    let signature ← parens do keyword "func"; signature
    return .type id signature
  else if ← isKeyword "import" 0 then
    advance
    let module ← text
    let name ← text
    let (id, item) ← parens coreItem
    return .import offset module name id [] item
  else if ← isKeyword "func" 0 then
    advance
    let id ← id?
    let exports ← inlineExports
    match ← inlineImport? with
    | some (module, name) => return .import offset module name id exports (.func (← typeUse))
    | none =>
      let type ← typeUse
      let locals ← lists "local" (parens do keyword "local"; declared)
      return .func id exports type locals.flatten (← expression)
  else if ← isKeyword "table" 0 then
    advance
    let id ← id?
    let exports ← inlineExports
    match ← inlineImport? with
    | some (module, name) =>
      let size ← limits
      itemType
      return .import offset module name id exports (.table size)
    | none =>
      let size ← limits
      itemType
      return .table id exports size
  else if ← isKeyword "memory" 0 then
    advance
    let id ← id?
    let exports ← inlineExports
    match ← inlineImport? with
    | some (module, name) => return .import offset module name id exports (.memory (← limits))
    | none => return .memory id exports (← limits)
  else if ← isKeyword "global" 0 then
    advance
    let id ← id?
    let exports ← inlineExports
    match ← inlineImport? with
    | some (module, name) => return .import offset module name id exports (.global (← globalType))
    | none => return .global id exports (← globalType) (← expression)
  else if ← isKeyword "export" 0 then
    advance
    let name ← text
    let (kind, index) ← parens do
      let kind ← coreKind
      return (kind, ← ref)
    return .export name kind index
  else if ← isKeyword "start" 0 then
    advance
    return .start (← ref)
  else if ← isKeyword "data" 0 then
    advance
    let id ← id?
    let memory ← if ← isKeyword "memory" 1 then some <$> parens (do keyword "memory"; ref) else pure none
    let place ← dataPlace
    return .data id memory place (← rest bytes).flatten
  else fail "expected valid module field"

end ComponentHost.Wat.Reader
