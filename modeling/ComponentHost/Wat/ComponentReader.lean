import ComponentHost.Wat.CoreReader

/-!
Reading components, and whole texts.
-/
set_option autoImplicit false

namespace ComponentHost.Wat

namespace Reader

/-! ## Types -/

def scalars : List (String × Component.Scalar) :=
  [("bool", .bool), ("s8", .s8), ("u8", .u8), ("s16", .s16), ("u16", .u16), ("s32", .s32),
   ("u32", .u32), ("char", .char)]

def valType : Nat → Reader (ValType Ref)
  | 0 => fail "unexpected token"
  | fuel + 1 => do
    match ← ref? with
    | some r => return .named r
    | none =>
      match ← ahead 0 with
      | some (.keyword "string") => advance; return .string
      | some (.keyword text) =>
        match scalars.lookup text with
        | some type => advance; return .scalar type
        | none => fail "unexpected token, expected a value type"
      | some .openParen =>
        parens do
          if ← isKeyword "list" 0 then
            advance
            return .list (← valType fuel)
          else if ← isKeyword "option" 0 then
            advance
            return .option (← valType fuel)
          else if ← isKeyword "tuple" 0 then
            advance
            return .tuple (← rest (valType fuel))
          else if ← isKeyword "record" 0 then
            advance
            return .record (← rest (parens do
              keyword "field"
              return (← text, ← valType fuel)))
          else fail "unexpected token, expected a value type"
      | _ => fail "unexpected token, expected a value type"

def anyValType : Reader (ValType Ref) := do
  valType (← bound)

/-- Reads the parameters and the result of a function. -/
def funcType : Reader (FuncType Ref) := do
  let params ← lists "param" (parens do
    keyword "param"
    return (← text, ← anyValType))
  let result ← if ← isKeyword "result" 1 then
    some <$> parens (do keyword "result"; anyValType) else pure none
  return ⟨params, result⟩

/-- Reads a function type, or a reference to a declared one. -/
def funcUse : Reader (FuncUse Ref) := do
  if ← isKeyword "type" 1 then
    parens do keyword "type"; return .named (← ref)
  else return .inline (← funcType)

/-- Drops the tokens up to the end of the list that is being read. -/
def skipRest : Nat → Nat → Reader Unit
  | 0, _ => return
  | fuel + 1, depth => do
    match ← ahead 0 with
    | none => return
    | some .openParen => advance; skipRest fuel (depth + 1)
    | some .closeParen =>
      if depth = 0 then return
      advance
      skipRest fuel (depth - 1)
    | some _ => advance; skipRest fuel depth

/-- Reads what an import, or an export of an imported instance, stands for, with its name. -/
def item : Nat → Reader (Option Id × Item Ref)
  | 0 => fail "unexpected token"
  | fuel + 1 => do
    if ← isKeyword "core" 0 then
      advance
      keyword "module"
      let id ← id?
      skipRest (← bound) 0
      return (id, .module)
    else if ← isKeyword "func" 0 then
      advance
      return (← id?, .func (← funcUse))
    else if ← isKeyword "instance" 0 then
      advance
      let id ← id?
      let exports ← rest (parens do
        keyword "export"
        let name ← text
        return (name, (← parens (item fuel)).2))
      return (id, .interface exports)
    else if ← isKeyword "component" 0 then
      advance
      let id ← id?
      skipRest (← bound) 0
      return (id, .component)
    else if ← isKeyword "type" 0 then
      advance
      let id ← id?
      skipRest (← bound) 0
      return (id, .type)
    else fail "unexpected token, expected one of: \x60core\x60, \x60func\x60, \x60component\x60, \x60instance\x60, \x60value\x60, \x60type\x60"

/-! ## References -/

/-- Reads a reference to a core thing, with the name of an export if there is one. -/
def coreRef : Reader (CoreRef Ref) := do
  let index ← ref
  let name ← if ← atEnd then pure none else some <$> text
  return ⟨index, name⟩

/-- Reads a reference to a thing, with the names of exports if there are any. -/
def itemRef : Reader (ItemRef Ref) := do
  let index ← ref
  return ⟨index, ← rest text⟩

/-- Reads a reference to a core thing of a kind, bare or as a list. -/
def coreRefTo (kind : String) : Reader (CoreRef Ref) := do
  match ← ref? with
  | some index =>
    let name ← if ← atEnd then pure none else some <$> text
    return ⟨index, name⟩
  | none => parens do keyword "core"; keyword kind; coreRef

/-- Reads a list of options of a function that crosses the boundary of a component. -/
def options : Reader (List (CallOption Ref)) :=
  rest do
    if (← ahead 0) = some .openParen then
      parens do
        if ← isKeyword "memory" 0 then
          advance
          return .memory (← coreRefTo "memory")
        else if ← isKeyword "realloc" 0 then
          advance
          return .realloc (← coreRefTo "func")
        else if ← isKeyword "post-return" 0 then
          advance
          return .postReturn (← coreRefTo "func")
        else fail "unexpected token, expected one of: \x60memory\x60, \x60realloc\x60, \x60post-return\x60"
    else if ← isKeyword "string-encoding=utf8" 0 then
      advance
      return .utf8
    else fail "unexpected token, expected a canonical option"

def coreExports : Reader (List (String × Core.Kind × CoreRef Ref)) :=
  rest (parens do
    keyword "export"
    let name ← text
    parens do
      let kind ← coreKind
      return (name, kind, ← coreRef))

/-- Reads the kind of a thing in a component and a reference to one. -/
def roleRef : Reader (Role × ItemRef Ref) := do
  if ← isKeyword "core" 0 then
    advance
    keyword "module"
    return (.module, ← itemRef)
  else if ← isKeyword "func" 0 then advance; return (.func, ← itemRef)
  else if ← isKeyword "instance" 0 then advance; return (.interface, ← itemRef)
  else if ← isKeyword "component" 0 then advance; return (.component, ← itemRef)
  else if ← isKeyword "type" 0 then advance; return (.type, ← itemRef)
  else fail "unexpected token, expected one of: \x60core\x60, \x60func\x60, \x60value\x60, \x60type\x60, \x60component\x60, \x60instance\x60"

/-! ## Fields -/

/-- Reads an argument of the instantiation of a core module. -/
def coreArg : Reader (String × CoreArg Ref) := do
  keyword "with"
  let name ← text
  parens do
    keyword "instance"
    match ← ref? with
    | some index => return (name, .given index)
    | none => return (name, .bundle (← coreExports))

def coreInstance : Reader (Definition Ref) := do
  let id ← id?
  if (← ahead 0) = some .openParen then
    if ← isKeyword "instantiate" 1 then
      return ← parens do
        advance
        let module ← ref
        return .coreInstantiate id module (← rest (parens coreArg))
  return .coreBundle id (← coreExports)

def coreFunc : Reader (Definition Ref) := do
  let id ← id?
  parens do
    keyword "canon"
    keyword "lower"
    let func ← parens do keyword "func"; itemRef
    return .lower id func (← options)

def func : Reader (Definition Ref) := do
  let id ← id?
  let exports ← inlineExports
  let type ← funcUse
  parens do
    keyword "canon"
    keyword "lift"
    let func ← parens do keyword "core"; keyword "func"; coreRef
    return .lift id exports type func (← options)

def exported : Reader (String × Role × ItemRef Ref) := do
  let name ← text
  let (role, ref) ← parens roleRef
  return (name, role, ref)

def typeDef : Reader (TypeDef Ref) := do
  if ← isKeyword "func" 1 then
    parens do keyword "func"; return .func (← funcType)
  else if (← isKeyword "instance" 1) || (← isKeyword "component" 1) || (← isKeyword "resource" 1) then
    parens do skipRest (← bound) 0; return .other
  else return .value (← anyValType)

def definition : Nat → Reader (Definition Ref)
  | 0 => fail "expected valid component field"
  | fuel + 1 => do
    if ← isKeyword "core" 0 then
      if ← isKeyword "module" 1 then
        advance
        advance
        let id ← id?
        return .coreModule id (← inlineExports) (← rest (parens coreField))
      else if ← isKeyword "instance" 1 then
        advance
        advance
        coreInstance
      else if ← isKeyword "func" 1 then
        advance
        advance
        coreFunc
      else fail "expected valid component field"
    else if ← isKeyword "component" 0 then
      advance
      let id ← id?
      return .component id (← inlineExports) (← rest (parens (definition fuel)))
    else if ← isKeyword "instance" 0 then
      advance
      let id ← id?
      return .interface id (← inlineExports) (← rest (parens do keyword "export"; exported))
    else if ← isKeyword "type" 0 then
      advance
      let id ← id?
      return .type id (← inlineExports) (← typeDef)
    else if ← isKeyword "import" 0 then
      advance
      let name ← text
      let (id, item) ← parens (item (← bound))
      return .import name id item
    else if ← isKeyword "func" 0 then
      advance
      func
    else if ← isKeyword "export" 0 then
      advance
      let id ← id?
      let (name, role, ref) ← exported
      return .export id name role ref
    else fail "expected valid component field"

/-! ## Texts -/

/-- Reads a whole text: a component, a core module, or the fields of one. -/
def source : Reader (Source Ref) := do
  if (← get).tokens.isEmpty then fail "expected at least one module field"
  let source ← if ← isKeyword "module" 1 then
      parens do
        keyword "module"
        let _ ← id?
        return .module (← rest (parens coreField))
    else if ← isKeyword "component" 1 then
      parens do
        keyword "component"
        let _ ← id?
        return .component (← rest (parens (definition (← bound))))
    else
      pure (.module (← rest (parens coreField)))
  if (← ahead 0).isSome then fail "extra tokens remaining after parse"
  return source

end Reader

def Source.read (text : String) : Except Fault (Source Ref) :=
  (Reader.source.run ⟨tokens text, text.utf8ByteSize⟩).map Prod.fst

end ComponentHost.Wat
