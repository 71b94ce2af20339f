import ComponentHost.FileSystem
import ComponentHost.Manifest.Listing

/-!
The dependency manifest of a base directory: the file `deps.json` in it, which lists a component's
path under each import name. A base directory without that file has an empty manifest.
-/
set_option autoImplicit false

namespace ComponentHost

/-- The import names that a base directory provides for, each with a path. -/
structure Manifest where
  baseDir : Path
  listing : Manifest.Listing

inductive ManifestError where
  /-- The file could not be read. -/
  | unreadable (path : Path) (fault : ReadFault)
  /-- The file is no manifest. -/
  | malformed (path : Path) (fault : Manifest.Fault)
  deriving DecidableEq, Repr

namespace Manifest

def fileName : String := "deps.json"

def load (fs : FileSystem) (baseDir : Path) : Except ManifestError Manifest :=
  let path := baseDir.join ⟨fileName⟩
  match fs.readText path with
  | .error .notFound => .ok ⟨baseDir, []⟩
  | .error fault => .error (.unreadable path fault)
  | .ok text =>
    match Listing.parse text with
    | .error fault => .error (.malformed path fault)
    | .ok listing => .ok ⟨baseDir, listing⟩

/-- The path for an import name, when it is listed and leads to a file. A relative path starts from
the base directory. -/
def resolve? (fs : FileSystem) (manifest : Manifest) (name : String) : Option Path :=
  match manifest.listing.get? name with
  | none => none
  | some listed =>
    let path := manifest.baseDir.join ⟨listed⟩
    if fs.isFile path then some path else none

end Manifest

end ComponentHost
