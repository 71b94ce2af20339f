import ComponentHost.Path
import ComponentHost.Text.Utf8

/-!
A file system as a value: the directories and regular files below one root, and the directory that
relative paths start from. Reading answers with bytes, or with the reason why there are none.
-/
set_option autoImplicit false

namespace ComponentHost

inductive ReadFault where
  | notFound
  | isDirectory
  | notDirectory
  | nameTooLong
  | nulInPath
  | permissionDenied
  | notText
  deriving DecidableEq, Repr

def ReadFault.message : ReadFault → String
  | .notFound => "No such file or directory (os error 2)"
  | .isDirectory => "Is a directory (os error 21)"
  | .notDirectory => "Not a directory (os error 20)"
  | .nameTooLong => "File name too long (os error 36)"
  | .nulInPath => "file name contained an unexpected NUL byte"
  | .permissionDenied => "Permission denied (os error 13)"
  | .notText => "stream did not contain valid UTF-8"

inductive Node where
  | dir
  | file (content : List UInt8)
  /-- A file that may not be opened. -/
  | locked
  deriving DecidableEq, Repr

/-- Whether a node is a regular file, that may be opened or not. -/
def Node.isFile : Node → Bool
  | .dir => false
  | .file _ => true
  | .locked => true

/-- The nodes below the root, each under the names that lead to it, and the working directory. The
root is a directory of its own. -/
structure FileSystem where
  cwd : Path
  nodes : List (List String × Node)

namespace FileSystem

def node? (fs : FileSystem) (place : List String) : Option Node :=
  if place = [] then some .dir else (fs.nodes.find? fun n => n.1 == place).map Prod.snd

/-- Puts a node at a place, instead of what was there. -/
def set (fs : FileSystem) (place : List String) (node : Node) : FileSystem :=
  { fs with nodes := (place, node) :: fs.nodes.filter fun n => n.1 != place }

/-- Makes a directory at a place, and the directories above it. -/
def makeDirs (fs : FileSystem) (place : List String) : FileSystem :=
  ((List.range place.length).map fun n => place.take (n + 1)).foldl
    (fun fs above => if fs.node? above = some .dir then fs else fs.set above .dir) fs

def write (fs : FileSystem) (place : List String) (content : List UInt8) : FileSystem :=
  (fs.makeDirs place.dropLast).set place (.file content)

def remove (fs : FileSystem) (place : List String) : FileSystem :=
  { fs with nodes := fs.nodes.filter fun n => n.1 != place }

/-! ## Following a path -/

/-- Goes from a place to the next piece of a path. Only a directory can be left, even by an empty
piece or a dot. -/
def enter (fs : FileSystem) (place : List String) (piece : List Char) : Except ReadFault (List String) :=
  match fs.node? place with
  | none => .error .notFound
  | some (.file _) | some .locked => .error .notDirectory
  | some .dir =>
    match Path.Component.ofPiece piece with
    | none | some .root | some .here => .ok place
    | some .up => .ok place.dropLast
    | some (.name text) =>
      if text.utf8ByteSize > 255 then .error .nameTooLong
      else if (fs.node? (place ++ [text])).isSome then .ok (place ++ [text])
      else .error .notFound

def placeOf (p : Path) : List String :=
  p.body.filterMap fun | .name text => some text | _ => none

def follow (fs : FileSystem) (p : Path) : Except ReadFault (List String) :=
  if p.text.toList.contains '\x00' then .error .nulInPath
  else if p.text.toList = [] then .error .notFound
  else if p.text.utf8ByteSize ≥ 4096 then .error .nameTooLong
  else p.pieces.foldlM fs.enter (if p.isAbsolute then [] else placeOf fs.cwd)

def isFile (fs : FileSystem) (p : Path) : Bool :=
  match fs.follow p with
  | .ok place => (fs.node? place).any Node.isFile
  | .error _ => false

def isDir (fs : FileSystem) (p : Path) : Bool :=
  match fs.follow p with
  | .ok place => fs.node? place == some .dir
  | .error _ => false

/-- Opens what a path leads to: a directory, or a file that may be opened. -/
def openNode (fs : FileSystem) (p : Path) : Except ReadFault Node :=
  match fs.follow p with
  | .error fault => .error fault
  | .ok place =>
    match fs.node? place with
    | none => .error .notFound
    | some .locked => .error .permissionDenied
    | some node => .ok node

def read (fs : FileSystem) (p : Path) : Except ReadFault (List UInt8) :=
  match fs.openNode p with
  | .error fault => .error fault
  | .ok (.file content) => .ok content
  | .ok _ => .error .isDirectory

def readText (fs : FileSystem) (p : Path) : Except ReadFault String :=
  match fs.read p with
  | .error fault => .error fault
  | .ok content => (Text.Utf8.decode content).mapError fun _ => .notText

end FileSystem

end ComponentHost
