import ComponentHost.Text.Blank

/-!
The names under which a component imports and exports things: plain labels, and interfaces of a
package with an optional version. Labels that differ only in case are the same name.
-/
set_option autoImplicit false

namespace ComponentHost.Component.Name

def isDigit (c : Char) : Bool := '0' ≤ c && c ≤ '9'

def isLower (c : Char) : Bool := 'a' ≤ c && c ≤ 'z'

def isUpper (c : Char) : Bool := 'A' ≤ c && c ≤ 'Z'

/-- Whether characters are a word of a label: digits and letters of one case. -/
def isWord (cs : List Char) : Bool :=
  !cs.isEmpty && (cs.all (fun c => isDigit c || isLower c) || cs.all (fun c => isDigit c || isUpper c))

/-- Whether characters are words with dashes between them, the first of which starts with a letter. -/
def isLabel (cs : List Char) : Bool :=
  (Text.pieces '-' cs).all isWord && cs.head?.any (fun c => isLower c || isUpper c)

/-- Whether characters are a label without upper case letters. -/
def isLowerLabel (cs : List Char) : Bool := isLabel cs && !cs.any isUpper

/-! ## Versions -/

/-- Whether characters are a number that fits 64 bits, without zeros in front. -/
def isVersionNumber (cs : List Char) : Bool :=
  !cs.isEmpty && cs.all isDigit && (cs.length = 1 || cs.head? ≠ some '0')
    && cs.foldl (fun n c => n * 10 + (c.toNat - 48)) 0 < UInt64.size

/-- Whether characters may stand between the dots behind a version's numbers. -/
def isVersionWord (cs : List Char) : Bool :=
  !cs.isEmpty && cs.all fun c => isDigit c || isLower c || isUpper c || c = '-'

/-- Whether characters name a release that comes before another: words, in which a number has no
zeros in front. -/
def isPreRelease (cs : List Char) : Bool :=
  (Text.pieces '.' cs).all fun word =>
    isVersionWord word && !(word.all isDigit && 1 < word.length && word.head? = some '0')

def isBuild (cs : List Char) : Bool := (Text.pieces '.' cs).all isVersionWord

/-- The characters before the first of some character, and those behind it if it is there. -/
def cut (at? : Char) (cs : List Char) : List Char × Option (List Char) :=
  match cs.dropWhile (· ≠ at?) with
  | [] => (cs, none)
  | _ :: rest => (cs.takeWhile (· ≠ at?), some rest)

/-- Whether characters are a version: three numbers, and perhaps a pre-release and a build. -/
def isVersion (cs : List Char) : Bool :=
  let (front, build) := cut '+' cs
  let (numbers, pre) := cut '-' front
  let parts := Text.pieces '.' numbers
  parts.length = 3 && parts.all isVersionNumber && pre.all isPreRelease && build.all isBuild

/-! ## Names -/

/-- Whether characters name an interface: a namespace, a package, an interface and perhaps a
version. -/
def isInterface (cs : List Char) : Bool :=
  let (path, version) := cut '@' cs
  match cut ':' path with
  | (_, none) => false
  | (space, some rest) =>
    match cut '/' rest with
    | (_, none) => false
    | (package, some name) =>
      isLowerLabel space && isLowerLabel package && isLabel name && version.all isVersion

/-- Whether a text may name an import or an export. -/
def isValid (name : String) : Bool := isLabel name.toList || isInterface name.toList

/-- What two names have in common that are taken for the same: for labels, the case does not count. -/
def key (name : String) : String :=
  if isLabel name.toList then String.ofList (name.toList.map Char.toLower) else name

end ComponentHost.Component.Name
