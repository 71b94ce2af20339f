import ComponentHost.Executor

/-!
The command line: what its words ask for, and what a run with them prints. A word that starts with a
dash is an option; the value of one stands behind an equals sign or is the next word.
-/
set_option autoImplicit false

namespace ComponentHost.CommandLine

/-- The name and version that are printed on request. -/
def version : String := "wasm-script-host 0.1.0"

/-- What a run of a script is asked to do. -/
structure Args where
  script : String
  baseDir : Option String
  references : List String
  /-- The argument of the entry point. -/
  name : String
  /-- The file that holds the settings. -/
  settings : Option String
  isDebug : Bool
  deriving DecidableEq, Repr

inductive Request where
  | run (args : Args)
  | version
  | help
  /-- The words do not make sense. -/
  | misuse
  deriving DecidableEq, Repr

/-! ## Words -/

structure Words where
  script : Option String
  baseDir : Option String
  references : List String
  name : Option String
  settings : Option String
  isDebug : Bool

namespace Words

def none : Words := ⟨.none, .none, [], .none, .none, false⟩

/-- A place that is filled once, by a text. -/
def fillOnce (place : Option String) (value : String) : Option (Option String) :=
  if place.isSome then .none else some (some value)

/-- A place that is filled once, by a path, which is not empty. -/
def fillPath (place : Option String) (value : String) : Option (Option String) :=
  if value.isEmpty then .none else fillOnce place value

/-- Takes a word that is no option: the script. -/
def takePlain (ws : Words) (value : String) : Option Words :=
  (fillPath ws.script value).map fun script => { ws with script }

def takeValue (ws : Words) (option value : String) : Option Words :=
  match option with
  | "base-dir" => (fillPath ws.baseDir value).map fun baseDir => { ws with baseDir }
  | "config" => (fillPath ws.settings value).map fun settings => { ws with settings }
  | "name" => (fillOnce ws.name value).map fun name => { ws with name }
  | "reference" => some { ws with references := ws.references ++ [value] }
  | _ => .none

/-- What the words ask for, when all are read. -/
def finish (ws : Words) : Request :=
  match ws.script with
  | .none => .misuse
  | some script =>
    .run ⟨script, ws.baseDir, ws.references, ws.name.getD "Mary", ws.settings, ws.isDebug⟩

end Words

def valueOptions : List String := ["base-dir", "config", "name", "reference"]

/-- Whether a word is an option, or the mark behind which there are none. -/
def isOption (word : String) : Bool := word.toList.head? = some '-' && word ≠ "-"

/-- An option's name and the value that is attached to it. -/
def splitOption (word : String) : String × Option String :=
  let cs := word.toList.drop 2
  match cs.dropWhile (· ≠ '=') with
  | [] => (String.ofList cs, none)
  | _ :: value => (String.ofList (cs.takeWhile (· ≠ '=')), some (String.ofList value))

/-- Reads words behind the mark that ends the options. -/
def readPlain (ws : Words) : List String → Request
  | [] => ws.finish
  | word :: rest =>
    match ws.takePlain word with
    | some ws => readPlain ws rest
    | none => .misuse

def readWords (ws : Words) : List String → Request
  | [] => ws.finish
  | word :: rest =>
    if word = "--" then readPlain ws rest
    else if !isOption word then
      match ws.takePlain word with
      | some ws => readWords ws rest
      | none => .misuse
    else if word.toList.take 2 = ['-', '-'] then
      match splitOption word with
      | ("version", none) => .version
      | ("help", none) => .help
      | ("debug", none) =>
        if ws.isDebug then .misuse else readWords { ws with isDebug := true } rest
      | (option, some value) =>
        match ws.takeValue option value with
        | some ws => readWords ws rest
        | none => .misuse
      | (option, none) =>
        match rest with
        | value :: rest =>
          if !valueOptions.contains option || isOption value then .misuse
          else
            match ws.takeValue option value with
            | some ws => readWords ws rest
            | none => .misuse
        | [] => .misuse
    else
      match word.toList[1]? with
      | some 'V' => .version
      | some 'h' => .help
      | _ => .misuse

/-- What the words of a command line ask for. -/
def read (words : List String) : Request := readWords .none words

/-! ## Runs -/

/-- What a command line prints, and how it ends. -/
structure Report where
  exitCode : UInt32
  output : String
  /-- The lines that are printed as errors. -/
  errors : List String
  deriving DecidableEq, Repr

def Report.silent (exitCode : UInt32) : Report := ⟨exitCode, "", []⟩

def settingsOf (fs : FileSystem) (args : Args) : Except Settings.Error Settings :=
  match args.settings with
  | none => .ok Settings.standard
  | some path => Settings.load fs ⟨path⟩

/-- The base directory of a run: the one that is given, or the one that holds the script. -/
def baseDirOf (args : Args) : Path :=
  let given : Option Path := match args.baseDir with
    | some dir => some ⟨dir⟩
    | none => Path.parent? ⟨args.script⟩
  match given with
  | some dir => if dir.text.isEmpty then ⟨"."⟩ else dir
  | none => ⟨"."⟩

def execute (fs : FileSystem) (fuel : Nat) (args : Args) : Report :=
  match settingsOf fs args with
  | .error _ => .silent 1
  | .ok settings =>
    let settings := if args.isDebug then { settings with optimization := .debug } else settings
    match fs.readText ⟨args.script⟩ with
    | .error _ => .silent 1
    | .ok source =>
      let executor : Executor := ⟨fs, fuel, settings⟩
      match executor.executeEntryPoint ⟨baseDirOf args, source, args.references⟩ args.name none .quiet with
      | .error _ | .ok (.error _) => .silent 1
      | .ok (.ok report) =>
        match report.result with
        | .ok (.ok output) => ⟨0, output ++ "\n", []⟩
        | .ok (.error _) => .silent 1
        | .error diagnostics => ⟨1, "", diagnostics.map Diagnostic.display⟩

def run (fs : FileSystem) (fuel : Nat) (words : List String) : Report :=
  match read words with
  | .run args => execute fs fuel args
  | .version => ⟨0, version ++ "\n", []⟩
  | .help => .silent 0
  | .misuse => .silent 2

/-! ## Files -/

/-- The files and directories that a run looks at, as far as what is known of the file system tells:
more are known when the manifest is. -/
def wanted (fs : FileSystem) (args : Args) : List Path :=
  let base := baseDirOf args
  let listed := match Manifest.load fs base with
    | .ok manifest => manifest.listing.map fun (_, path) => base.join ⟨path⟩
    | .error _ => []
  let references := args.references.flatMap fun name =>
    let trimmed : Path := ⟨Text.trim name⟩
    trimmed :: (Path.fileName? trimmed).toList.map fun name => base.join ⟨name⟩
  ⟨args.script⟩ :: args.settings.toList.map Path.mk ++ [base, base.join ⟨Manifest.fileName⟩] ++ references
    ++ listed

/-- The places that a path leads through, from a place on. -/
def places (start : List String) (p : Path) : List (List String) :=
  let go (visited : List (List String)) (c : Path.Component) : List (List String) :=
    let here := visited.headD start
    match c with
    | .name text => (here ++ [text]) :: visited
    | .up => here.dropLast :: visited
    | .root | .here => visited
  (p.body.foldl go [if p.isAbsolute then [] else start]).reverse

end ComponentHost.CommandLine
