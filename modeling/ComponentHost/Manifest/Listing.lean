import ComponentHost.Manifest.Token

/-!
The listing in a manifest: an object whose field `dependencies` is an object of strings, or an array
that holds at most that object. Other fields are skipped, whatever they hold. A wrong shape is found
where it starts, before anything that follows it is looked at.
-/
set_option autoImplicit false

namespace ComponentHost.Manifest

/-- The names of a listing, each with the path listed for it, in the order first written. -/
abbrev Listing := List (String × String)

/-- Lists a path under a name, in place of an earlier one. -/
def Listing.put (listing : Listing) (name path : String) : Listing :=
  if listing.any (·.1 == name) then listing.map fun e => if e.1 == name then (name, path) else e
  else listing ++ [(name, path)]

def Listing.get? (listing : Listing) (name : String) : Option String :=
  (listing.find? (·.1 == name)).map Prod.snd

/-- The fault of a token that stands where a value of another kind is read. -/
def mismatch : List Token → Fault
  | [] => .endOfText
  | .broken _ used _ :: _ => used
  | .number false :: _ => .malformed
  | .string none :: _ => .malformed
  | .closeObject :: _ | .closeArray :: _ | .colon :: _ | .comma :: _ => .malformed
  | _ => .wrongShape

/-- The fault of a token that stands where only punctuation may. -/
def misplaced : List Token → Fault
  | [] => .endOfText
  | _ => .malformed

/-! ## Skipping a value -/

/-- What is open around the place that has been reached. -/
inductive Bracket where
  | object
  | array
  deriving DecidableEq, Repr

inductive Expect where
  /-- A value. -/
  | value
  /-- A value, or the end of the array that has just been opened. -/
  | valueOrEnd
  /-- A key, or the end of the object that has just been opened. -/
  | keyOrEnd
  | key
  | colon
  /-- A comma or the end of the bracket. -/
  | more
  deriving DecidableEq, Repr

/-- Skips tokens up to the end of the value around which nothing is open any more. -/
def skip : List Bracket → Expect → List Token → Except Fault (List Token)
  | _, _, [] => .error .endOfText
  | _, .value, .broken _ _ skipped :: _ => .error skipped
  | _, .valueOrEnd, .broken _ _ skipped :: _ => .error skipped
  | _, .key, .broken true _ skipped :: _ => .error skipped
  | _, .keyOrEnd, .broken true _ skipped :: _ => .error skipped
  | _, _, .broken _ _ _ :: _ => .error .malformed
  | open', .valueOrEnd, .closeArray :: rest =>
    match open' with
    | _ :: [] => .ok rest
    | _ :: outer => skip outer .more rest
    | [] => .error .malformed
  | open', .keyOrEnd, .closeObject :: rest =>
    match open' with
    | _ :: [] => .ok rest
    | _ :: outer => skip outer .more rest
    | [] => .error .malformed
  | open', .more, .closeArray :: rest =>
    match open' with
    | .array :: [] => .ok rest
    | .array :: outer => skip outer .more rest
    | _ => .error .malformed
  | open', .more, .closeObject :: rest =>
    match open' with
    | .object :: [] => .ok rest
    | .object :: outer => skip outer .more rest
    | _ => .error .malformed
  | open', .more, .comma :: rest =>
    match open' with
    | .array :: _ => skip open' .value rest
    | .object :: _ => skip open' .key rest
    | [] => .error .malformed
  | open', .key, .string _ :: rest => skip open' .colon rest
  | open', .keyOrEnd, .string _ :: rest => skip open' .colon rest
  | open', .colon, .colon :: rest => skip open' .value rest
  | open', expect, .openObject :: rest =>
    if expect = .value ∨ expect = .valueOrEnd then skip (.object :: open') .keyOrEnd rest
    else .error .malformed
  | open', expect, .openArray :: rest =>
    if expect = .value ∨ expect = .valueOrEnd then skip (.array :: open') .valueOrEnd rest
    else .error .malformed
  | open', expect, .string _ :: rest =>
    if expect = .value ∨ expect = .valueOrEnd then
      if open' = [] then .ok rest else skip open' .more rest
    else .error .malformed
  | open', expect, .number _ :: rest =>
    if expect = .value ∨ expect = .valueOrEnd then
      if open' = [] then .ok rest else skip open' .more rest
    else .error .malformed
  | open', expect, .literal :: rest =>
    if expect = .value ∨ expect = .valueOrEnd then
      if open' = [] then .ok rest else skip open' .more rest
    else .error .malformed
  | _, _, _ => .error .malformed

/-! ## Reading -/

/-- Reads the entries of an object of strings; `first` says that none has been read. -/
def readEntries : Nat → Bool → Listing → List Token → Except Fault (Listing × List Token)
  | 0, _, _, _ => .error .malformed
  | fuel + 1, first, listing, tokens =>
    match first, tokens with
    | _, .closeObject :: rest => .ok (listing, rest)
    | true, .string (some name) :: rest => entry fuel listing name rest
    | false, .comma :: .string (some name) :: rest => entry fuel listing name rest
    | false, .comma :: .broken true used _ :: _ => .error used
    | true, .broken true used _ :: _ => .error used
    | false, .comma :: [] => .error .endOfText
    | _, tokens => .error (misplaced tokens)
where
  /-- Reads the rest of an entry behind its name. -/
  entry (fuel : Nat) (listing : Listing) (name : String) :
      List Token → Except Fault (Listing × List Token)
    | .colon :: .string (some path) :: rest => readEntries fuel false (listing.put name path) rest
    | .colon :: rest => .error (mismatch rest)
    | tokens => .error (misplaced tokens)

def readListing (tokens : List Token) : Except Fault (Listing × List Token) :=
  match tokens with
  | .openObject :: rest => readEntries (rest.length + 1) true [] rest
  | _ => .error (mismatch tokens)

/-- Reads the fields of a manifest; `first` says that none has been read, and `found` holds the
listing once it has been. -/
def readFields : Nat → Bool → Option Listing → List Token → Except Fault (Listing × List Token)
  | 0, _, _, _ => .error .malformed
  | fuel + 1, first, found, tokens =>
    match first, tokens with
    | _, .closeObject :: rest => .ok (found.getD [], rest)
    | true, .string (some name) :: rest => field fuel found name rest
    | false, .comma :: .string (some name) :: rest => field fuel found name rest
    | false, .comma :: .broken true used _ :: _ => .error used
    | true, .broken true used _ :: _ => .error used
    | false, .comma :: [] => .error .endOfText
    | _, tokens => .error (misplaced tokens)
where
  /-- Reads the rest of a field behind its name. -/
  field (fuel : Nat) (found : Option Listing) (name : String) (tokens : List Token) :
      Except Fault (Listing × List Token) :=
    if name = "dependencies" then
      if found.isSome then .error .wrongShape
      else
        match tokens with
        | .colon :: rest =>
          match readListing rest with
          | .error fault => .error fault
          | .ok (listing, rest) => readFields fuel false (some listing) rest
        | tokens => .error (misplaced tokens)
    else
      match tokens with
      | .colon :: rest =>
        match skip [] .value rest with
        | .error fault => .error fault
        | .ok rest => readFields fuel false found rest
      | tokens => .error (misplaced tokens)

/-- Reads a manifest written as an array of its fields. -/
def readArray : List Token → Except Fault (Listing × List Token)
  | .closeArray :: rest => .ok ([], rest)
  | [] => .error .endOfText
  | tokens =>
    match readListing tokens with
    | .error fault => .error fault
    | .ok (listing, .closeArray :: rest) => .ok (listing, rest)
    | .ok (_, rest) => .error (misplaced rest)

def Listing.parse (text : String) : Except Fault Listing :=
  let ts := tokens text
  let read := match ts with
    | .openObject :: rest => readFields (rest.length + 1) true none rest
    | .openArray :: rest => readArray rest
    | _ => .error (mismatch ts)
  match read with
  | .error fault => .error fault
  | .ok (listing, []) => .ok listing
  | .ok _ => .error .malformed

end ComponentHost.Manifest
