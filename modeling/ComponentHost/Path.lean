import ComponentHost.Text.Blank

/-!
Paths of a file system with one root and `/` between names. A path is its text; two texts may stand
for the same sequence of components, which is what comparing paths looks at.
-/
set_option autoImplicit false

namespace ComponentHost

structure Path where
  text : String
  deriving DecidableEq, Repr, Inhabited

namespace Path

inductive Component where
  | root
  | here
  | up
  | name (text : String)
  deriving DecidableEq, Repr

/-- The component that a piece between slashes stands for, away from the start of a path: an empty
piece and a dot stand for none. -/
def Component.ofPiece (piece : List Char) : Option Component :=
  if piece = [] ∨ piece = ['.'] then none
  else if piece = ['.', '.'] then some .up
  else some (.name (String.ofList piece))

def Component.text : Component → String
  | .root => "/"
  | .here => "."
  | .up => ".."
  | .name text => text

def pieces (p : Path) : List (List Char) := Text.pieces '/' p.text.toList

def isAbsolute (p : Path) : Bool := p.text.toList.head? = some '/'

def body (p : Path) : List Component := p.pieces.filterMap Component.ofPiece

/-- What a path starts with: the root, a dot of its own, or nothing. -/
def start (p : Path) : List Component :=
  if p.isAbsolute then [.root]
  else if p.pieces.head? = some ['.'] then [.here]
  else []

/-- The components of a path. Repeated slashes, a dot that is not at the start and a slash at the
end leave no component. -/
def components (p : Path) : List Component := p.start ++ p.body

def same (p q : Path) : Bool := p.components == q.components

/-- Adds a relative text to a path, with a slash between them where one is needed. -/
def push (p : Path) (tail : String) : Path :=
  if p.text.toList = [] ∨ p.text.toList.getLast? = some '/' then ⟨p.text ++ tail⟩
  else ⟨p.text ++ "/" ++ tail⟩

/-- The path of `q` seen from `p`: an absolute `q` replaces `p`. -/
def join (p q : Path) : Path := if q.isAbsolute then q else p.push q.text

/-- Where a path that is made absolute starts: the working directory, the root, or, for a path of
exactly two leading slashes, both slashes. -/
def anchor (cwd p : Path) : Path :=
  match p.text.toList with
  | '/' :: '/' :: '/' :: _ => ⟨"/"⟩
  | '/' :: '/' :: _ => ⟨"//"⟩
  | '/' :: _ => ⟨"/"⟩
  | _ => cwd

/-- The absolute form of a path: nothing but dots and repeated slashes is removed, and a slash at
the end stays. The empty path has none. -/
def absolute? (cwd p : Path) : Option Path :=
  if p.text.toList = [] then none
  else
    let whole := p.body.foldl (fun q c => q.push c.text) (anchor cwd p)
    some (if p.text.toList.getLast? = some '/' then whole.push "" else whole)

/-- The last component of a path, when it is a name. -/
def fileName? (p : Path) : Option String :=
  match p.components.getLast? with
  | some (.name text) => some text
  | _ => none

/-- A reversed text without the slashes and dots at its end that stand for no component; `root` says
whether its first slash does. -/
def dropIdle (root : Bool) : List Char → List Char
  | ['/'] => if root then ['/'] else []
  | '/' :: cs => dropIdle root cs
  | '.' :: '/' :: cs => dropIdle root ('/' :: cs)
  | cs => cs
  termination_by cs => cs.length

/-- The path without its last component; the root and the empty path have none before it. -/
def parent? (p : Path) : Option Path :=
  match p.components.getLast? with
  | none | some .root => none
  | some _ =>
    let trimmed := dropIdle p.isAbsolute p.text.toList.reverse
    let before := trimmed.dropWhile (· ≠ '/')
    some ⟨String.ofList (dropIdle p.isAbsolute before).reverse⟩

end Path

end ComponentHost
