import ComponentHost.Proofs.Compiler.Report
import ComponentHost.Proofs.Session.Moves
import Mathlib.Data.String.Basic

/-! # Loading what compiles and links

Of a source and of the files that are referred to, loading only uses what they read as. So it is known what a
session has loaded when it is known which components the source and the files are, and that they link. -/
set_option autoImplicit false

namespace ComponentHost

/-! ## Texts that are components -/

/-- Characters as bytes, where each is one byte. -/
def Text.asciiBytes (text : List Char) : List UInt8 := text.map fun c => UInt8.ofNat c.toNat

namespace Text.Utf8

theorem decodeFrom_asciiBytes {text : List Char} (h : ∀ c ∈ text, c.toNat < 128) (offset : Nat) (before : List Char) :
    decodeFrom offset before (asciiBytes text) = .ok (before.reverse ++ text) := by
  induction text generalizing offset before with
  | nil =>
    rw [asciiBytes, List.map_nil, decodeFrom, List.append_nil]
  | cons c text ih =>
    obtain ⟨hc, hrest⟩ := List.forall_mem_cons.mp h
    have hbyte : (UInt8.ofNat c.toNat).toNat = c.toNat := by
      rw [UInt8.toNat_ofNat', Nat.mod_eq_of_lt (by omega)]
    have hlt : UInt8.ofNat c.toNat < 0x80 := by
      rw [UInt8.lt_iff_toNat_lt, hbyte]
      exact hc
    have hnext : next offset (UInt8.ofNat c.toNat) (asciiBytes text) = .ok (c, 0) := by
      have hwidth : width? (UInt8.ofNat c.toNat) = some 1 := if_pos hlt
      unfold next
      rw [hwidth, hbyte, Char.ofNat_toNat]
      cases asciiBytes text <;> rfl
    rw [show asciiBytes (c :: text) = UInt8.ofNat c.toNat :: asciiBytes text from rfl, decodeFrom, hnext]
    dsimp only
    rw [List.drop_zero, ih hrest, List.reverse_cons, List.append_assoc]
    rfl

theorem decode_asciiBytes {text : List Char} (h : ∀ c ∈ text, c.toNat < 128) :
    decode (asciiBytes text) = .ok (String.ofList text) := by
  rw [decode, decodeFrom_asciiBytes h]
  rfl

end Text.Utf8

namespace Component

/-- The component that a text of these characters reads as, if it does. -/
def ofChars? (text : List Char) : Option Component :=
  match Wat.Reader.source.run ⟨Wat.tokensFrom (text.length + 1) 0 text, String.utf8Len text⟩ with
  | .error _ => none
  | .ok (read, _) =>
    match read.resolve with
    | .ok (.component definitions) => (check definitions).toOption
    | _ => none

variable {text : List Char} {script : Component}

theorem parse_ofList (h : ofChars? text = some script) : parse (String.ofList text) = .ok script := by
  unfold ofChars? at h
  split at h
  · cases h
  · next read left hr =>
    have hread : Wat.Source.read (String.ofList text) = .ok read := by
      rw [Wat.Source.read, Wat.tokens, String.toList_ofList, String.utf8ByteSize_ofList, hr]
      rfl
    split at h
    · next definitions hd =>
      have hparse : Wat.Source.parse (String.ofList text) = .ok (.component definitions) := by
        rw [Wat.Source.parse, hread]
        exact hd
      rw [parse, hparse]
      cases hc : check definitions with
      | error e =>
        rw [hc] at h
        cases h
      | ok component =>
        rw [hc] at h
        cases h
        simp only [hc]
        rfl
    · cases h

/-- A source without blanks around it is what its text is. -/
theorem parse_trim {source : String} (h : ofChars? source.toList = some script) (hn : source.toList ≠ [])
    (ht : Text.trimEnd (Text.trimStart source.toList) = source.toList) :
    (Text.trim source).isEmpty = false ∧ parse (Text.trim source) = .ok script := by
  have htrim : Text.trim source = source := by rw [Text.trim, ht, String.ofList_toList]
  have hparse := parse_ofList h
  rw [String.ofList_toList] at hparse
  rw [htrim]
  refine ⟨Bool.eq_false_iff.mpr fun hempty => hn ?_, hparse⟩
  rw [String.isEmpty_iff.mp hempty]
  rfl

/-- Whether a text has characters of one byte only, and is not taken for the binary format. -/
def isPlain (text : List Char) : Bool :=
  text.all (fun c => c.toNat < 128) && !binaryMark.isPrefixOf (Text.asciiBytes text)

/-- A file that holds the bytes of such a text is what the text is. -/
theorem load_asciiBytes {fs : FileSystem} {path : Path} (hr : fs.read path = .ok (Text.asciiBytes text))
    (ht : isPlain text = true) (h : ofChars? text = some script) : load fs path = .ok script := by
  obtain ⟨hbytes, hmark⟩ := (Bool.and_eq_true _ _).mp ht
  have hascii : ∀ c ∈ text, c.toNat < 128 := fun c hc => of_decide_eq_true (List.all_eq_true.mp hbytes c hc)
  rw [load, hr]
  dsimp only
  rw [ofBytes, (Bool.not_eq_true' _).mp hmark, if_neg Bool.false_ne_true, Text.Utf8.decode_asciiBytes hascii]
  exact parse_ofList h

end Component

/-! ## Scripts that are loaded -/

/-- A source is compiled as the component that it is, without what is around it. -/
theorem Compiler.compile_of_parse {source : String} {script : Component} (hn : (Text.trim source).isEmpty = false)
    (hp : Component.parse (Text.trim source) = .ok script) (compiler : Compiler) (fs : FileSystem)
    (level : OptimizationLevel) :
    compiler.compile fs level source = compiler.finish level script
      (compiler.references.paths.map fun path => (path, Component.load fs path)) := by
  unfold compile
  dsimp only
  rw [if_neg (by simp [hn]), hp]

/-- What loading comes to when the references are found, and the source compiles and links. -/
theorem Boundary.load_of_linked {fs : FileSystem} {baseDir absolute : Path} {manifest : Manifest} {names : List String}
    {references : ReferenceSet} {source : String} {compiled : Script} {linked : Linked} {fuel : Nat}
    (settings : Settings) (hd : fs.isDir baseDir = true) (ha : (Path.absolute? fs.cwd baseDir).getD baseDir = absolute)
    (hm : Manifest.load fs absolute = .ok manifest)
    (hr : (ReferenceSet.empty fs.cwd absolute).addAll fs names = (references, []))
    (hc : (Compiler.mk references settings.warningsAsErrors).compile fs settings.optimization source = .ok compiled)
    (hl : Linked.link fuel ⟨fs, manifest, compiled.references⟩ (settings.maxMemoryBytes.map UInt64.toNat)
      compiled.component = .ok (.ok linked)) (id scriptId : Id) :
    load fs fuel settings id scriptId ⟨baseDir, source, names⟩ =
      .ok (.ok ⟨.make id absolute (settings.maxMemoryBytes.map UInt64.toNat)
        (some (⟨scriptId, compiled⟩, linked)), compiled.warnings⟩) := by
  unfold load
  dsimp only
  rw [if_neg (by simp [hd]), ha, hm]
  dsimp only
  rw [hr]
  dsimp only
  unfold attempt
  rw [hc]
  dsimp only
  rw [List.map_nil, List.isEmpty_nil, Bool.not_true, Bool.and_false, if_neg Bool.false_ne_true, hl]
  rfl

namespace Session

theorem run_append {s t : Session} {ops : List SessionStep} (h : s.run ops = .ok t) (more : List SessionStep) :
    s.run (ops ++ more) = t.run more := by
  induction ops generalizing s with
  | nil =>
    cases h
    rfl
  | cons op ops ih =>
    obtain ⟨u, a, hstep, hr⟩ := run_cons_ok h
    rw [List.cons_append, run, hstep]
    exact ih hr

theorem load_ok {s : Session} {settings : LoadSettings} {parsed : Settings} {request : LoadRequest}
    {outcome : LoadOutcome} (name : String) (hs : settingsOf settings = .ok parsed)
    (h : Boundary.load s.fs s.fuel parsed ⟨s.nextId⟩ ⟨s.nextId + 1⟩ request = .ok (.ok outcome)) :
    s.step (.load name settings request) = .ok (s.place name outcome.boundary, .loaded outcome) := by
  rw [step, load]
  rw [hs]
  dsimp only
  rw [h]
  rfl

/-- A session that begins with such a load holds what has been loaded. -/
theorem run_load {fs : FileSystem} {fuel : Nat} {settings : LoadSettings} {parsed : Settings} {request : LoadRequest}
    {outcome : LoadOutcome} (name : String) (hs : settingsOf settings = .ok parsed)
    (h : Boundary.load fs fuel parsed ⟨0⟩ ⟨1⟩ request = .ok (.ok outcome)) :
    (start fs fuel).run [.load name settings request] = .ok ((start fs fuel).place name outcome.boundary) :=
  (run_cons (load_ok (s := start fs fuel) name hs h)).mpr rfl

end Session

/-! ## Scripts that import nothing -/

/-- What a script is linked with that imports nothing. -/
def Linked.alone (script : Component) : Linked := ⟨script, #[], []⟩

theorem Linked.link_alone {script : Component} (h : script.imports = []) (fuel : Nat) (sources : Sources)
    (maxMemoryBytes : Option Nat) : link fuel sources maxMemoryBytes script = .ok (.ok (alone script)) := by
  have hplan : Plan.ofScript sources script = (Plan.empty, .ok []) := by
    rw [Plan.ofScript, h]
    rfl
  rw [link, hplan]
  rfl

/-- Against no references, such a script is compiled without a diagnostic. -/
theorem Compiler.finish_alone {script : Component} (h : script.imports = []) (compiler : Compiler)
    (level : OptimizationLevel) : compiler.finish level script [] = .ok ⟨level, script, [], []⟩ := by
  have hnames : script.importNames = [] := by rw [Component.importNames, h, List.map_nil]
  have hdiagnostics : failures [] ++ unresolved script (loaded []) ++ unused script (loaded []) = [] := by
    rw [unresolved, hnames]
    rfl
  unfold finish
  dsimp only
  rw [hdiagnostics]
  simp [Diagnostic.hasErrors, loaded]

namespace Session

/-- A session in which a script has been loaded that imports nothing. -/
def alone (settings : Settings) (script : Component) : Session :=
  (start bareFiles 1000).place "c" (.make ⟨0⟩ ⟨"/base"⟩ (settings.maxMemoryBytes.map UInt64.toNat)
    (some (⟨⟨1⟩, ⟨settings.optimization, script, [], []⟩⟩, .alone script)))

/-- A text that can be read and checked is loaded, if it imports nothing. -/
theorem run_load_alone {source : String} {script : Component} {settings : LoadSettings} {parsed : Settings}
    (hs : settingsOf settings = .ok parsed) (hn : (Text.trim source).isEmpty = false)
    (hp : Component.parse (Text.trim source) = .ok script) (hi : script.imports = []) :
    (start bareFiles 1000).run [.load "c" settings ⟨⟨"/base"⟩, source, []⟩] = .ok (alone parsed script) := by
  have hcompile := (Compiler.compile_of_parse hn hp ⟨.empty bareFiles.cwd ⟨"/base"⟩, parsed.warningsAsErrors⟩ bareFiles
    parsed.optimization).trans (Compiler.finish_alone hi _ _)
  have hbase : (Path.absolute? bareFiles.cwd ⟨"/base"⟩).getD ⟨"/base"⟩ = ⟨"/base"⟩ := rfl
  have hmanifest : Manifest.load bareFiles ⟨"/base"⟩ = .ok ⟨⟨"/base"⟩, []⟩ := rfl
  exact run_load "c" hs
    (Boundary.load_of_linked parsed rfl hbase hmanifest rfl hcompile (Linked.link_alone hi _ _ _) ⟨0⟩ ⟨1⟩)

/-- What comes of steps behind the loading of a text, when it is one of a script that imports nothing. -/
def aloneRun? (settings : LoadSettings) (text : List Char) (ops : List SessionStep) : Option Session := do
  let parsed ← (settingsOf settings).toOption
  let script ← Component.ofChars? text
  if script.imports.isEmpty then ((alone parsed script).run ops).toOption else none

theorem aloneRun?_cases {settings : LoadSettings} {text : List Char} {ops : List SessionStep} {s : Session}
    (h : aloneRun? settings text ops = some s) :
    ∃ parsed script, settingsOf settings = .ok parsed ∧ Component.ofChars? text = some script ∧ script.imports = [] ∧
      (alone parsed script).run ops = .ok s := by
  obtain ⟨parsed, hs, h⟩ := Option.bind_eq_some_iff.mp h
  obtain ⟨script, hscript, h⟩ := Option.bind_eq_some_iff.mp h
  split at h
  · next hi => exact ⟨parsed, script, ok_of_toOption hs, hscript, List.isEmpty_iff.mp hi, ok_of_toOption h⟩
  · cases h

/-- Such a text loads, when there are no blanks around it. What else there is to say of a session that goes on from
there is computed. -/
theorem exists_alone {settings : LoadSettings} {source : String} {ops : List SessionStep} {P : Session → Prop}
    (ht : source.toList ≠ [] ∧ Text.trimEnd (Text.trimStart source.toList) = source.toList)
    (h : ∃ s ∈ aloneRun? settings source.toList ops, P s) :
    ∃ s, (start bareFiles 1000).run (.load "c" settings ⟨⟨"/base"⟩, source, []⟩ :: ops) = .ok s ∧ P s := by
  obtain ⟨s, hs, hP⟩ := h
  obtain ⟨parsed, script, hsettings, hscript, hi, hrun⟩ := aloneRun?_cases hs
  obtain ⟨hempty, hparse⟩ := Component.parse_trim hscript ht.1 ht.2
  exact ⟨s, (run_append (run_load_alone hsettings hempty hparse hi) ops).trans hrun, hP⟩

/-- What a boundary of a session is linked to, as long as it is active. -/
def linked? (s : Session) (b : Nat) : Option Linked :=
  (s.boundaries[b]?).bind fun boundary =>
    match boundary.content with
    | .active linked => some linked
    | _ => none

theorem of_linked? {s : Session} {b : Nat} {linked : Linked} (h : s.linked? b = some linked) :
    ∃ boundary, s.boundaries[b]? = some boundary ∧ boundary.content = .active linked := by
  obtain ⟨boundary, hb, hc⟩ := Option.bind_eq_some_iff.mp h
  refine ⟨boundary, hb, ?_⟩
  split at hc
  · next hcontent => exact Option.some.inj hc ▸ hcontent
  · cases hc

/-- The texts that calls returned, of these answers, and where calls failed. -/
def texts (answers : List SessionAnswer) : List (Option String) :=
  answers.filterMap fun
    | .executed result => some result.toOption
    | _ => none

/-! ## A script that can be called once -/

/-- A component whose function traps when it is called for the second time, and does nothing much behind a call. -/
def onceText : String := r#"(component
  (core module (memory (export "m") 1) (global (mut i32) (i32.const 0))
    (func (export "r") (param i32 i32 i32 i32) (result i32) (i32.const 0))
    (func (export "x") (param i32 i32) (result i32)
      (if (global.get 0) (then (unreachable)))
      (global.set 0 (i32.const 1)) (i32.const 0))
    (func (export "p") (param i32) (nop) (nop)))
  (core instance (instantiate 0))
  (func (param "n" string) (result string)
    (canon lift (core func 0 "x") (memory (core memory 0 "m")) (realloc (core func 0 "r"))
      (post-return (core func 0 "p"))))
  (instance (export "execute" (func 0)))
  (export "e" (instance 0)))"#

def loadOnce : List SessionStep := [.load "c" (.level .debug) ⟨⟨"/base"⟩, onceText, []⟩]

/-- Makes an instance of the script, and a token. -/
def makeOnce : List SessionStep := [.resolve "c.module" "e" .standard, .instantiate "e" "i", .token "t"]

theorem trim_once : onceText.toList ≠ [] ∧ Text.trimEnd (Text.trimStart onceText.toList) = onceText.toList := by
  rw [onceText, String.toList_ofList]
  decide +kernel

theorem exists_once {ops : List SessionStep} {P : Session → Prop}
    (h : ∃ s ∈ aloneRun? (.level .debug) onceText.toList ops, P s) :
    ∃ s, (start bareFiles 1000).run (loadOnce ++ ops) = .ok s ∧ P s :=
  exists_alone trim_once h

/-! ## A script that calls another component -/

/-- A component with a function from bytes to a number that may be missing, which traps when it is called for the
third time. -/
def providerText : String := r#"(component
  (core module (memory (export "m") 1) (global (mut i32) (i32.const 0))
    (func (export "r") (param i32 i32 i32 i32) (result i32) (i32.const 8))
    (func (export "f") (param i32 i32) (result i32)
      (if (i32.eq (global.get 0) (i32.const 2)) (then (unreachable)))
      (global.set 0 (i32.add (global.get 0) (i32.const 1))) (i32.const 0)))
  (core instance (instantiate 0))
  (func (param "p" (list u8)) (result (option u32))
    (canon lift (core func 0 "f") (memory (core memory 0 "m")) (realloc (core func 0 "r"))))
  (instance (export "f" (func 0)))
  (export "d" (instance 0)))"#

/-- A script that calls this function with two bytes. -/
def callerText : String := r#"(component
  (import "d" (instance (export "f" (func (param "p" (list u8)) (result (option u32))))))
  (core module (memory (export "m") 1))
  (core instance (instantiate 0))
  (core func (canon lower (func 0 "f") (memory (core memory 0 "m"))))
  (core instance (export "f" (func 0)))
  (core module (import "" "f" (func (param i32 i32 i32)))
    (func (export "r") (param i32 i32 i32 i32) (result i32) (i32.const 0))
    (func (export "x") (param i32 i32) (result i32)
      (call 0 (i32.const 0) (i32.const 2) (i32.const 8)) (i32.const 0)))
  (core instance (instantiate 1 (with "" (instance 1))))
  (func (param "n" string) (result string)
    (canon lift (core func 2 "x") (memory (core memory 0 "m")) (realloc (core func 2 "r"))))
  (instance (export "execute" (func 1)))
  (export "e" (instance 1)))"#

/-- A component that offers no function under the same name. -/
def lackingText : String := r#"(component (instance) (export "d" (instance 0)))"#

/-- A file system with a component in it. -/
def pairFiles (provider : String) : FileSystem := ⟨⟨"/"⟩, [(["d"], .file (Text.asciiBytes provider.toList))]⟩

def loadPair : List SessionStep := [.load "c" (.level .debug) ⟨⟨"/"⟩, callerText, ["d"]⟩]

/-- Makes two instances of the script, and a token. -/
def makePair : List SessionStep :=
  [.resolve "c.module" "e" .standard, .instantiate "e" "i", .instantiate "e" "j", .token "t"]

/-- What the script refers to. -/
def pairReferences : ReferenceSet := ⟨⟨"/"⟩, [⟨"/d"⟩]⟩

/-- What comes of steps behind the loading of a script with such a component, when both texts can be read and the
script compiles and links. -/
def pairRun? (fs : FileSystem) (caller provider : List Char) (ops : List SessionStep) : Option Session := do
  let script ← Component.ofChars? caller
  let loads := [(⟨"/d"⟩, .ok (← Component.ofChars? provider))]
  let compiled ← ((Compiler.mk pairReferences false).finish .debug script loads).toOption
  let linked ← (← (Linked.link 1000 ⟨fs, ⟨⟨"/"⟩, []⟩, compiled.references⟩ none compiled.component).toOption).toOption
  (((start fs 1000).place "c" (.make ⟨0⟩ ⟨"/"⟩ none (some (⟨⟨1⟩, compiled⟩, linked)))).run ops).toOption

theorem pairRun?_cases {fs : FileSystem} {caller provider : List Char} {ops : List SessionStep} {s : Session}
    (h : pairRun? fs caller provider ops = some s) :
    ∃ script component compiled linked, Component.ofChars? caller = some script ∧
      Component.ofChars? provider = some component ∧
      (Compiler.mk pairReferences false).finish .debug script [(⟨"/d"⟩, .ok component)] = .ok compiled ∧
      Linked.link 1000 ⟨fs, ⟨⟨"/"⟩, []⟩, compiled.references⟩ none compiled.component = .ok (.ok linked) ∧
      ((start fs 1000).place "c" (.make ⟨0⟩ ⟨"/"⟩ none (some (⟨⟨1⟩, compiled⟩, linked)))).run ops = .ok s := by
  obtain ⟨script, hs, h⟩ := Option.bind_eq_some_iff.mp h
  obtain ⟨component, hp, h⟩ := Option.bind_eq_some_iff.mp h
  obtain ⟨compiled, hc, h⟩ := Option.bind_eq_some_iff.mp h
  obtain ⟨outcome, ho, h⟩ := Option.bind_eq_some_iff.mp h
  obtain ⟨linked, hl, hrun⟩ := Option.bind_eq_some_iff.mp h
  exact ⟨script, component, compiled, linked, hs, hp, ok_of_toOption hc, Linked.link_of_toOption ho hl,
    ok_of_toOption hrun⟩

theorem trim_caller :
    callerText.toList ≠ [] ∧ Text.trimEnd (Text.trimStart callerText.toList) = callerText.toList := by
  rw [callerText, String.toList_ofList]
  decide +kernel

theorem isDir_root (provider : String) : (pairFiles provider).isDir ⟨"/"⟩ = true := by
  rfl

theorem absolute_root : (Path.absolute? ⟨"/"⟩ ⟨"/"⟩).getD ⟨"/"⟩ = ⟨"/"⟩ := by
  decide +kernel

theorem addAll_pair (provider : String) :
    (ReferenceSet.empty ⟨"/"⟩ ⟨"/"⟩).addAll (pairFiles provider) ["d"] = (pairReferences, []) := by
  have hempty : ReferenceSet.empty ⟨"/"⟩ ⟨"/"⟩ = ⟨⟨"/"⟩, []⟩ := by rw [ReferenceSet.empty, absolute_root]
  have hpath : Path.absolute? ⟨"/"⟩ ⟨Text.trim "d"⟩ = some ⟨"/d"⟩ := by
    decide +kernel
  have hadd : (ReferenceSet.mk ⟨"/"⟩ []).tryAdd (pairFiles provider) "d" = .ok pairReferences := by
    unfold ReferenceSet.tryAdd
    dsimp only
    rw [show (pairFiles provider).cwd = ⟨"/"⟩ from rfl, hpath]
    rfl
  rw [hempty, ReferenceSet.addAll, ReferenceSet.add, hadd]
  rfl

/-- The script loads with a component that it imports from, when all of the component's text is plain. What else there
is to say of a session that goes on from there is computed. -/
theorem exists_pair {provider : String} {ops : List SessionStep} {P : Session → Prop}
    (ht : Component.isPlain provider.toList = true)
    (h : ∃ s ∈ pairRun? (pairFiles provider) callerText.toList provider.toList ops, P s) :
    ∃ s, (start (pairFiles provider) 1000).run (loadPair ++ ops) = .ok s ∧ P s := by
  obtain ⟨s, hs, hP⟩ := h
  obtain ⟨script, component, compiled, linked, hs, hp, hc, hl, hrun⟩ := pairRun?_cases hs
  obtain ⟨hn, htrim⟩ := trim_caller
  obtain ⟨hempty, hparse⟩ := Component.parse_trim hs hn htrim
  have hfile : (pairFiles provider).read ⟨"/d"⟩ = .ok (Text.asciiBytes provider.toList) := rfl
  have hcomponent := Component.load_asciiBytes hfile ht hp
  have hsettings : settingsOf (.level .debug) = .ok { Settings.standard with optimization := .debug } := rfl
  have hmanifest : Manifest.load (pairFiles provider) ⟨"/"⟩ = .ok ⟨⟨"/"⟩, []⟩ := rfl
  have hcompile : (Compiler.mk pairReferences false).compile (pairFiles provider) .debug callerText = .ok compiled := by
    rw [Compiler.compile_of_parse hempty hparse, show pairReferences.paths = [⟨"/d"⟩] from rfl, List.map_singleton,
      hcomponent]
    exact hc
  have hload := Boundary.load_of_linked { Settings.standard with optimization := .debug } (isDir_root provider)
    absolute_root hmanifest (addAll_pair provider) hcompile hl ⟨0⟩ ⟨1⟩
  exact ⟨s, (run_append (run_load "c" hsettings hload) ops).trans hrun, hP⟩

theorem plain_provider : Component.isPlain providerText.toList = true := by
  rw [providerText, String.toList_ofList]
  decide +kernel

theorem plain_lacking : Component.isPlain lackingText.toList = true := by
  rw [lackingText, String.toList_ofList]
  decide +kernel

end Session

end ComponentHost
