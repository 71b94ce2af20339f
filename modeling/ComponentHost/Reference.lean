import ComponentHost.FileSystem

/-!
References: the component files that a script may import from. A set of them keeps the order in which
they were added and holds no path twice. A name is looked up as given and then, by its file name
alone, in the library directory.
-/
set_option autoImplicit false

namespace ComponentHost

inductive ReferenceError where
  /-- The name has no characters other than white space. -/
  | emptyName
  /-- Neither the name itself nor the library directory leads to a file. -/
  | unresolved (name : String)
  /-- The file is there but cannot be opened. -/
  | invalidToken (path : Path) (fault : ReadFault)
  /-- What has been opened is no regular file. -/
  | notAFile (path : Path)
  deriving DecidableEq, Repr

def ReferenceError.message : ReferenceError → String
  | .emptyName => "Empty Reference Name"
  | .unresolved name => s!"Unresolved Reference: {name}"
  | .invalidToken path fault => s!"Invalid Reference {path.text}: {fault.message}"
  | .notAFile path => s!"Not A File: {path.text}"

structure ReferenceSet where
  libraryDir : Path
  paths : List Path

namespace ReferenceSet

/-- The empty set with a library directory, made absolute where it can be. -/
def empty (cwd libraryDir : Path) : ReferenceSet :=
  { libraryDir := (Path.absolute? cwd libraryDir).getD libraryDir, paths := [] }

def contains (refs : ReferenceSet) (p : Path) : Bool := refs.paths.any (·.same p)

/-- Checks that a path leads to a regular file that can be opened. -/
def openFile (fs : FileSystem) (p : Path) : Except ReferenceError Unit :=
  match fs.openNode p with
  | .error fault => .error (.invalidToken p fault)
  | .ok node => if node.isFile then .ok () else .error (.notAFile p)

/-- The set with a path at its end, unless it is there already or cannot be opened. -/
def insert (fs : FileSystem) (refs : ReferenceSet) (p : Path) : Except ReferenceError ReferenceSet :=
  if refs.contains p then .ok refs
  else (openFile fs p).map fun () => { refs with paths := refs.paths ++ [p] }

/-- The file in the library directory with the file name of `name`. -/
def inLibrary? (fs : FileSystem) (refs : ReferenceSet) (name : String) : Option Path :=
  match Path.fileName? ⟨name⟩ with
  | none => none
  | some fileName =>
    let candidate := refs.libraryDir.join ⟨fileName⟩
    if fs.isFile candidate then some candidate else none

/-- Adds the file that a name stands for. A name whose path is in the set already is accepted and
changes nothing, whether its file exists or not. -/
def tryAdd (fs : FileSystem) (refs : ReferenceSet) (name : String) : Except ReferenceError ReferenceSet :=
  let trimmed := Text.trim name
  match Path.absolute? fs.cwd ⟨trimmed⟩ with
  | none => .error .emptyName
  | some path =>
    if refs.contains path then .ok refs
    else if fs.isFile path then refs.insert fs path
    else
      match refs.inLibrary? fs trimmed with
      | none => .error (.unresolved name)
      | some candidate => refs.insert fs candidate

/-- Adds a name where it can be, and says whether it was accepted. -/
def add (fs : FileSystem) (refs : ReferenceSet) (name : String) : ReferenceSet × Bool :=
  match refs.tryAdd fs name with
  | .ok refs => (refs, true)
  | .error _ => (refs, false)

/-- Adds every name and returns those that were not accepted, in order. -/
def addAll (fs : FileSystem) (refs : ReferenceSet) : List String → ReferenceSet × List String
  | [] => (refs, [])
  | name :: names =>
    match refs.add fs name with
    | (refs, true) => refs.addAll fs names
    | (refs, false) =>
      let (refs, failed) := refs.addAll fs names
      (refs, name :: failed)

end ReferenceSet

end ComponentHost
