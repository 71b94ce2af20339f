import ComponentHost.Component.Validity
import ComponentHost.FileSystem
import ComponentHost.Wat.Report
import ComponentHost.Wat.Scope

/-!
Components as texts and as files. A file that starts with the mark of the binary format is binary, and
any other is a text.

The engine has a front end of its own for both formats; `parse` and `ofBytes` are a fragment of it. Of
the binary format they understand the empty component only, of the text format core modules over `i32`
and interfaces over the types of `ValType`, with strings in UTF-8. Another text or file that the engine
takes for a component is answered here with a fault, which may be one that the engine does not have.
Loading and linking use the two only to learn which component a text or a file is.
-/
set_option autoImplicit false

namespace ComponentHost.Component

/-- Why a text or a file has no component. -/
inductive Fault where
  /-- The text cannot be read. -/
  | malformed (fault : Wat.Fault) (text : String)
  | invalid (reason : Invalid)
  /-- The file cannot be read. -/
  | unreadable (fault : ReadFault)
  | notText
  /-- The file is in the binary format and holds more than the empty component. -/
  | binary
  deriving Repr

def Fault.message : Fault → String
  | .malformed fault text => fault.render text
  | .invalid reason => s!"invalid component: {reason.message}"
  | .unreadable fault => fault.message
  | .notText => "input bytes are not valid utf-8"
  | .binary => "unexpected end or unknown section of a binary component"

/-- The component that a text is, in the fragment of the text format that is read here. -/
def parse (text : String) : Except Fault Component :=
  match Wat.Source.parse text with
  | .error fault => .error (.malformed fault text)
  | .ok (.module _) => .error (.invalid .notComponent)
  | .ok (.component definitions) => (check definitions).mapError .invalid

/-- What a file in the binary format starts with. -/
def binaryMark : List UInt8 := [0x00, 0x61, 0x73, 0x6d]

def emptyBinary : List UInt8 := binaryMark ++ [0x0d, 0x00, 0x01, 0x00]

/-- The component that a file holds, in the fragment of the two formats that is read here. -/
def ofBytes (content : List UInt8) : Except Fault Component :=
  if binaryMark.isPrefixOf content then
    if content = emptyBinary then .ok empty else .error .binary
  else
    match Text.Utf8.decode content with
    | .error _ => .error .notText
    | .ok text => parse text

def load (fs : FileSystem) (path : Path) : Except Fault Component :=
  match fs.read path with
  | .error fault => .error (.unreadable fault)
  | .ok content => ofBytes content

end ComponentHost.Component
