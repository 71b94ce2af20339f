import ComponentHost.Manifest.Token

/-!
The part of TOML that settings are written in: key-value pairs, table headers, strings of all four
kinds, integers, booleans, arrays and inline tables. A text outside it has no table.
-/
set_option autoImplicit false

namespace ComponentHost.Settings.Toml

inductive Value where
  | string (text : String)
  | integer (n : Int)
  | boolean (b : Bool)
  | array (items : List Value)
  /-- A table, written inside braces or not. -/
  | table (isInline : Bool) (entries : List (String × Value))
  deriving Repr

/-! ## Blanks, comments and line ends -/

def skipSpaces (cs : List Char) : List Char := cs.dropWhile fun c => c = ' ' || c = '\t'

/-- Whether a character may stand in a comment or a literal string. -/
def isPlain (c : Char) : Bool := c = '\t' || (0x20 ≤ c.toNat && c.toNat ≠ 0x7F)

/-- The text behind a line end, if it starts with one. -/
def lineEnd? : List Char → Option (List Char)
  | '\n' :: rest => some rest
  | '\r' :: '\n' :: rest => some rest
  | _ => none

/-- The text behind a comment; a text that starts with none is left as it is. -/
def skipComment (cs : List Char) : List Char :=
  match cs with
  | '#' :: rest => rest.dropWhile isPlain
  | _ => cs

def skipLines : Nat → List Char → List Char
  | 0, cs => cs
  | fuel + 1, cs =>
    let rest := skipComment (skipSpaces cs)
    match lineEnd? rest with
    | some rest => skipLines fuel rest
    | none => rest

/-! ## Strings -/

/-- The character that an escape of hexadecimal digits spells. -/
def hexChar? (ds : List Char) : Option Char :=
  match ds.mapM Manifest.hexDigit? with
  | none => none
  | some values =>
    let n := values.foldl (fun n d => n * 16 + d) 0
    if n < 0xD800 ∨ (0xDFFF < n ∧ n < 0x110000) then some (Char.ofNat n) else none

def escape? : List Char → Option (Char × List Char)
  | 'b' :: rest => some ('\x08', rest)
  | 't' :: rest => some ('\t', rest)
  | 'n' :: rest => some ('\n', rest)
  | 'f' :: rest => some ('\x0c', rest)
  | 'r' :: rest => some ('\r', rest)
  | '"' :: rest => some ('"', rest)
  | '\\' :: rest => some ('\\', rest)
  | 'u' :: rest =>
    if (rest.take 4).length = 4 then (hexChar? (rest.take 4)).map fun c => (c, rest.drop 4) else none
  | 'U' :: rest =>
    if (rest.take 8).length = 8 then (hexChar? (rest.take 8)).map fun c => (c, rest.drop 8) else none
  | _ => none

/-- Reads a string behind its quote; one on several lines ends in three quotes, to which two that
belong to it may be attached. -/
def string? (quote : Char) (isLong : Bool) : Nat → List Char → List Char → Option (String × List Char)
  | 0, _, _ => none
  | _, _, [] => none
  | fuel + 1, before, c :: rest =>
    let done (extra : Nat) (rest : List Char) :=
      some (String.ofList (before.reverse ++ List.replicate extra quote), rest)
    if c = quote then
      if isLong then
        match rest.takeWhile (· = quote) with
        | [_, _] => done 0 (rest.drop 2)
        | [_, _, _] => done 1 (rest.drop 3)
        | [_, _, _, _] => done 2 (rest.drop 4)
        | [] | [_] => string? quote isLong fuel (c :: before) rest
        | _ => none
      else done 0 rest
    else if c = '\\' && quote = '"' then
      match escape? rest with
      | some (c, rest) => string? quote isLong fuel (c :: before) rest
      | none =>
        match lineEnd? (skipSpaces rest) with
        | some rest =>
          if isLong then
            string? quote isLong fuel before (rest.dropWhile fun c => c = ' ' || c = '\t' || c = '\n' || c = '\r')
          else none
        | none => none
    else if isPlain c then string? quote isLong fuel (c :: before) rest
    else if isLong then
      match lineEnd? (c :: rest) with
      | some rest => string? quote isLong fuel ('\n' :: before) rest
      | none => none
    else none

/-- Reads a string of either quote; a line end right behind three quotes is no part of it. -/
def anyString? (cs : List Char) : Option (String × List Char) :=
  let long (quote : Char) (rest : List Char) :=
    let rest := (lineEnd? rest).getD rest
    string? quote true (rest.length + 1) [] rest
  match cs with
  | '"' :: '"' :: '"' :: rest => long '"' rest
  | '\'' :: '\'' :: '\'' :: rest => long '\'' rest
  | '"' :: rest => string? '"' false (rest.length + 1) [] rest
  | '\'' :: rest => string? '\'' false (rest.length + 1) [] rest
  | _ => none

/-! ## Keys -/

/-- Whether a character may stand in a key without quotes. -/
def isBare (c : Char) : Bool := c.isAlphanum || c = '_' || c = '-'

def keyPart? (cs : List Char) : Option (String × List Char) :=
  match cs with
  | '"' :: rest => string? '"' false (rest.length + 1) [] rest
  | '\'' :: rest => string? '\'' false (rest.length + 1) [] rest
  | _ =>
    match cs.takeWhile isBare with
    | [] => none
    | part => some (String.ofList part, cs.dropWhile isBare)

def key? : Nat → List Char → Option (List String × List Char)
  | 0, _ => none
  | fuel + 1, cs =>
    match keyPart? (skipSpaces cs) with
    | none => none
    | some (part, rest) =>
      match skipSpaces rest with
      | '.' :: rest => (key? fuel rest).map fun (parts, rest) => (part :: parts, rest)
      | rest => some ([part], rest)

/-! ## Values -/

/-- The number that digits of a base spell; an underscore may stand between two of them. -/
def digits? (base : Nat) : Bool → Nat → List Char → Option Nat
  | afterDigit, n, [] => if afterDigit then some n else none
  | afterDigit, n, c :: rest =>
    if c = '_' then
      if afterDigit && !rest.isEmpty then digits? base false n rest else none
    else
      match Manifest.hexDigit? c with
      | some d => if d < base then digits? base true (n * base + d) rest else none
      | none => none

/-- The number that decimal digits spell; a zero starts no longer number. -/
def decimal? (ds : List Char) : Option Nat :=
  match ds with
  | '0' :: _ :: _ => none
  | _ => digits? 10 false 0 ds

/-- The integer of 64 bits with a sign that a word spells. -/
def integer? (word : List Char) : Option Int :=
  let n : Option Int := match word with
    | '0' :: 'x' :: ds => (digits? 16 false 0 ds).map Int.ofNat
    | '0' :: 'o' :: ds => (digits? 8 false 0 ds).map Int.ofNat
    | '0' :: 'b' :: ds => (digits? 2 false 0 ds).map Int.ofNat
    | '+' :: ds => (decimal? ds).map Int.ofNat
    | '-' :: ds => (decimal? ds).map fun n => -Int.ofNat n
    | ds => (decimal? ds).map Int.ofNat
  n.filter fun n => -9223372036854775808 ≤ n && n ≤ 9223372036854775807

/-- The value that a word without quotes or brackets spells. -/
def word? (word : List Char) : Option Value :=
  if word = "true".toList then some (.boolean true)
  else if word = "false".toList then some (.boolean false)
  else (integer? word).map .integer

def isWord (c : Char) : Bool := c.isAlphanum || c = '_' || c = '-' || c = '+' || c = '.' || c = ':'

/-- Puts a value under a key into entries, making the tables on the way; there is no second value
under one key, and none is added to a table that was written in braces. -/
def put : List String → Value → List (String × Value) → Option (List (String × Value))
  | [], _, _ => none
  | [name], value, entries => if entries.any (·.1 == name) then none else some (entries ++ [(name, value)])
  | name :: path, value, entries =>
    match entries.find? (·.1 == name) with
    | none => (put path value []).map fun inner => entries ++ [(name, .table false inner)]
    | some (_, .table false inner) =>
      (put path value inner).map fun inner =>
        entries.map fun e => if e.1 == name then (name, .table false inner) else e
    | some _ => none

mutual

def value? : Nat → List Char → Option (Value × List Char)
  | 0, _ => none
  | fuel + 1, cs =>
    match cs with
    | '"' :: _ | '\'' :: _ => (anyString? cs).map fun (text, rest) => (.string text, rest)
    | '[' :: rest => items? fuel [] rest
    | '{' :: rest =>
      match skipSpaces rest with
      | '}' :: rest => some (.table true [], rest)
      | rest => pairs? fuel [] rest
    | _ => (word? (cs.takeWhile isWord)).map fun value => (value, cs.dropWhile isWord)

/-- Reads the items of an array behind its bracket, with the items before them in reverse. -/
def items? : Nat → List Value → List Char → Option (Value × List Char)
  | 0, _, _ => none
  | fuel + 1, before, cs =>
    match skipLines cs.length cs with
    | ']' :: rest => some (.array before.reverse, rest)
    | cs =>
      match value? fuel cs with
      | none => none
      | some (value, rest) =>
        match skipLines rest.length rest with
        | ',' :: rest => items? fuel (value :: before) rest
        | ']' :: rest => some (.array (value :: before).reverse, rest)
        | _ => none

/-- Reads the pairs of an inline table behind its brace. -/
def pairs? : Nat → List (String × Value) → List Char → Option (Value × List Char)
  | 0, _, _ => none
  | fuel + 1, entries, cs =>
    match key? (cs.length + 1) cs with
    | some (key, '=' :: rest) =>
      match value? fuel (skipSpaces rest) with
      | none => none
      | some (value, rest) =>
        match put key value entries with
        | none => none
        | some entries =>
          match skipSpaces rest with
          | ',' :: rest => pairs? fuel entries rest
          | '}' :: rest => some (.table true entries, rest)
          | _ => none
    | _ => none

end

/-! ## Documents -/

/-- The text behind the end of a line on which nothing but a comment may follow. -/
def finishLine? (cs : List Char) : Option (List Char) :=
  match skipComment (skipSpaces cs) with
  | [] => some []
  | rest => lineEnd? rest

/-- The table below which a header's entries go; it is made unless it is there. -/
def open? (path : List String) (entries : List (String × Value)) : Option (List (String × Value)) :=
  match path with
  | [] => some entries
  | name :: path =>
    match entries.find? (·.1 == name) with
    | none => (open? path []).map fun inner => entries ++ [(name, .table false inner)]
    | some (_, .table false inner) =>
      (open? path inner).map fun inner =>
        entries.map fun e => if e.1 == name then (name, .table false inner) else e
    | some _ => none

/-- Reads the lines of a document: `at` is the last header, and `headers` holds all of them. -/
def document? : Nat → List (List String) → List String → List (String × Value) → List Char →
    Option (List (String × Value))
  | 0, _, _, _, _ => none
  | fuel + 1, headers, at', entries, cs =>
    match skipLines cs.length cs with
    | [] => some entries
    | '[' :: rest =>
      match key? (rest.length + 1) rest with
      | some (path, ']' :: rest) =>
        if headers.contains path then none
        else
          match open? path entries, finishLine? rest with
          | some entries, some rest => document? fuel (path :: headers) path entries rest
          | _, _ => none
      | _ => none
    | cs =>
      match key? (cs.length + 1) cs with
      | some (key, '=' :: rest) =>
        match value? (rest.length + 1) (skipSpaces rest) with
        | none => none
        | some (value, rest) =>
          match put (at' ++ key) value entries, finishLine? rest with
          | some entries, some rest => document? fuel headers at' entries rest
          | _, _ => none
      | _ => none

/-- The entries of a document. A byte order mark may stand at its start. -/
def parse? (text : String) : Option (List (String × Value)) :=
  let cs := match text.toList with
    | '\uFEFF' :: rest => rest
    | cs => cs
  document? (cs.length + 1) [] [] [] cs

end ComponentHost.Settings.Toml
