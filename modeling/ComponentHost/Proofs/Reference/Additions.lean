import ComponentHost.Reference
import ComponentHost.Proofs.Path.Components
import ComponentHost.Proofs.Text.Blank
import Mathlib.Data.List.Infix

/-! # Adding references

A name stands for the file at its own absolute path or, where there is none, for the file of the same file name in
the library directory, and leads to it if it can be opened. To add the name changes nothing or puts that file's path
at the end of the set. No run of additions, whatever becomes of the files meanwhile, puts a path into a set twice or
one that no name led to. -/
set_option autoImplicit false

namespace ComponentHost

/-- A file can be opened, and then it is a regular file, or there is a reason why not. -/
theorem FileSystem.isFile_cases {fs : FileSystem} {p : Path} (h : fs.isFile p = true) :
    (∃ content, fs.openNode p = .ok (.file content)) ∨ ∃ fault, fs.openNode p = .error fault := by
  unfold isFile at h
  unfold openNode
  cases hp : fs.follow p with
  | error fault => exact .inr ⟨fault, rfl⟩
  | ok place =>
    rw [hp] at h
    dsimp only at h ⊢
    cases hn : fs.node? place with
    | none => exact .inr ⟨_, rfl⟩
    | some node =>
      rw [hn] at h
      cases node with
      | dir => cases h
      | file content => exact .inl ⟨content, rfl⟩
      | locked => exact .inr ⟨_, rfl⟩

theorem Path.same_iff {p q : Path} : p.same q = true ↔ p.components = q.components := by
  rw [same, beq_iff_eq]

namespace ReferenceSet

/-- The path that a name has by itself. -/
def Names (fs : FileSystem) (name : String) (p : Path) : Prop := Path.absolute? fs.cwd ⟨Text.trim name⟩ = some p

/-- The file that a name stands for, whether it can be opened or not. -/
inductive Finds (fs : FileSystem) (libraryDir : Path) (name : String) : Path → Prop where
  | own {p : Path} (h : Names fs name p) (hf : fs.isFile p = true) : Finds fs libraryDir name p
  | inLibrary {p : Path} {text : String} (hp : Names fs name p) (hnone : fs.isFile p = false)
      (h : Path.fileName? ⟨Text.trim name⟩ = some text) (hf : fs.isFile (libraryDir.join ⟨text⟩) = true) :
      Finds fs libraryDir name (libraryDir.join ⟨text⟩)

/-- The file that a name leads to: what it stands for, if that can be opened. -/
structure Leads (fs : FileSystem) (libraryDir : Path) (name : String) (p : Path) : Prop where
  finds : Finds fs libraryDir name p
  opens : ∃ content, fs.read p = .ok content

/-- What it comes to when a name is added to a set. -/
inductive Adds (fs : FileSystem) (libraryDir : Path) (refs : ReferenceSet) (name : String) :
    Except ReferenceError ReferenceSet → Prop where
  | blank (h : ∀ c ∈ name.toList, Text.isBlank c = true) : Adds fs libraryDir refs name (.error .emptyName)
  | unresolved (h : ∃ c ∈ name.toList, Text.isBlank c = false)
      (hown : ∀ p, Names fs name p → refs.contains p = false) (hnone : ∀ p, ¬ Finds fs libraryDir name p) :
      Adds fs libraryDir refs name (.error (.unresolved name))
  /-- The file is there, but it cannot be opened. -/
  | invalid {p : Path} {fault : ReadFault} (hown : ∀ q, Names fs name q → refs.contains q = false)
      (hp : Finds fs libraryDir name p) (hc : refs.contains p = false) (hf : fs.openNode p = .error fault) :
      Adds fs libraryDir refs name (.error (.invalidToken p fault))
  /-- The set holds the name's own path, whether there is a file or not. -/
  | known {p : Path} (hp : Names fs name p) (hc : refs.contains p = true) :
      Adds fs libraryDir refs name (.ok refs)
  | present {p : Path} (hp : Finds fs libraryDir name p) (hc : refs.contains p = true) :
      Adds fs libraryDir refs name (.ok refs)
  | appended {p : Path} (hown : ∀ q, Names fs name q → refs.contains q = false)
      (hp : Leads fs libraryDir name p) (hc : refs.contains p = false) :
      Adds fs libraryDir refs name (.ok { refs with paths := refs.paths ++ [p] })

variable {fs : FileSystem} {refs : ReferenceSet} {libraryDir p q : Path} {name : String}

/-! ## One name -/

theorem contains_iff : refs.contains p = true ↔ ∃ q ∈ refs.paths, q.components = p.components := by
  unfold contains
  simp only [List.any_eq_true, Path.same_iff]

theorem absolute?_trim_eq_none_iff :
    Path.absolute? fs.cwd ⟨Text.trim name⟩ = none ↔ ∀ c ∈ name.toList, Text.isBlank c = true :=
  Path.absolute?_eq_none_iff.trans Text.trim_isEmpty_iff

theorem Names.notBlank (h : Names fs name p) : ∃ c ∈ name.toList, Text.isBlank c = false := by
  by_contra hblank
  push Not at hblank
  simp only [ne_eq, Bool.not_eq_false] at hblank
  cases h.symm.trans (absolute?_trim_eq_none_iff.mpr hblank)

theorem Names.unique (h : Names fs name p) (h' : Names fs name q) : p = q :=
  Option.some.inj (h.symm.trans h')

theorem Finds.notBlank (h : Finds fs libraryDir name p) : ∃ c ∈ name.toList, Text.isBlank c = false := by
  cases h with
  | own h _ | inLibrary h _ _ _ => exact h.notBlank

theorem Finds.unique (h : Finds fs libraryDir name p) (h' : Finds fs libraryDir name q) : p = q := by
  cases h with
  | own h hf =>
    cases h' with
    | own h' _ => exact h.unique h'
    | inLibrary h' hnone _ _ => cases hnone.symm.trans (h.unique h' ▸ hf)
  | inLibrary h hnone ht _ =>
    cases h' with
    | own h' hf => cases hnone.symm.trans (h'.unique h ▸ hf)
    | inLibrary _ _ ht' _ => rw [Option.some.inj (ht.symm.trans ht')]

/-- A file that a name stands for has the name's own path or one file name more than the library directory. -/
theorem Finds.cases (h : Finds fs libraryDir name p) :
    Path.absolute? fs.cwd ⟨Text.trim name⟩ = some p ∨
    ∃ text, Path.IsName text ∧ p = libraryDir.join ⟨text⟩ ∧
      p.components = libraryDir.components ++ [.name text] := by
  cases h with
  | own h _ => exact .inl h
  | inLibrary _ _ h _ =>
    have hname := Path.isName_of_fileName? h
    exact .inr ⟨_, hname, rfl, Path.components_join hname⟩

theorem inLibrary?_eq_some_iff :
    refs.inLibrary? fs name = some p ↔
      ∃ text, Path.fileName? ⟨name⟩ = some text ∧ p = refs.libraryDir.join ⟨text⟩ ∧ fs.isFile p = true := by
  unfold inLibrary?
  cases Path.fileName? ⟨name⟩ with
  | none => simp
  | some text =>
    dsimp only
    constructor
    · intro h
      split at h
      · next hf =>
        cases h
        exact ⟨text, rfl, rfl, hf⟩
      · cases h
    · rintro ⟨_, ⟨⟩, rfl, hf⟩
      rw [if_pos hf]

/-- A file either can be opened, and what it holds can be read, or it is told why not. -/
theorem openFile_cases (h : fs.isFile p = true) :
    (openFile fs p = .ok () ∧ ∃ content, fs.read p = .ok content) ∨
      ∃ fault, openFile fs p = .error (.invalidToken p fault) ∧ fs.openNode p = .error fault := by
  rcases FileSystem.isFile_cases h with ⟨content, ho⟩ | ⟨fault, ho⟩
  · refine .inl ⟨?_, content, ?_⟩
    · rw [openFile, ho]
      rfl
    · rw [FileSystem.read, ho]
  · exact .inr ⟨fault, by rw [openFile, ho], ho⟩

theorem Finds.isFile (h : Finds fs libraryDir name p) : fs.isFile p = true := by
  cases h with
  | own _ hf => exact hf
  | inLibrary _ _ _ hf => exact hf

theorem insert_adds (hown : ∀ q, Names fs name q → refs.contains q = false)
    (hp : Finds fs refs.libraryDir name p) : Adds fs refs.libraryDir refs name (refs.insert fs p) := by
  unfold insert
  split
  · next hc => exact .present hp hc
  · next hc =>
    have hlacks : refs.contains p = false := Bool.eq_false_iff.mpr hc
    rcases openFile_cases hp.isFile with ⟨ho, hr⟩ | ⟨fault, ho, hf⟩
    · rw [ho]
      exact .appended hown ⟨hp, hr⟩ hlacks
    · rw [ho]
      exact .invalid hown hp hlacks hf

theorem tryAdd_adds (fs : FileSystem) (refs : ReferenceSet) (name : String) :
    Adds fs refs.libraryDir refs name (refs.tryAdd fs name) := by
  unfold tryAdd
  dsimp only
  cases hp : Path.absolute? fs.cwd ⟨Text.trim name⟩ with
  | none => exact .blank (absolute?_trim_eq_none_iff.mp hp)
  | some path =>
    have hnames : Names fs name path := hp
    dsimp only
    split
    · next hc => exact .known hnames hc
    · next hc =>
      have hown : ∀ q, Names fs name q → refs.contains q = false :=
        fun q hq => hnames.unique hq ▸ Bool.eq_false_iff.mpr hc
      split
      · next hf => exact insert_adds hown (.own hnames hf)
      · next hf =>
        have hnone : fs.isFile path = false := Bool.eq_false_iff.mpr hf
        cases hlib : refs.inLibrary? fs (Text.trim name) with
        | some candidate =>
          obtain ⟨text, htext, rfl, hfile⟩ := inLibrary?_eq_some_iff.mp hlib
          exact insert_adds hown (.inLibrary hnames hnone htext hfile)
        | none =>
          refine .unresolved hnames.notBlank hown fun p hfinds => ?_
          cases hfinds with
          | own h hfile => exact hf (hnames.unique h ▸ hfile)
          | inLibrary _ _ htext hfile =>
            have hsome := inLibrary?_eq_some_iff.mpr ⟨_, htext, rfl, hfile⟩
            cases hlib.symm.trans hsome

/-- Adding gives the set that trying gives, or the old one, and says which. -/
theorem add_eq (fs : FileSystem) (refs : ReferenceSet) (name : String) :
    refs.add fs name = ((refs.tryAdd fs name).toOption.getD refs, (refs.tryAdd fs name).isOk) := by
  unfold add
  cases refs.tryAdd fs name <;> rfl

/-- Adding a name leaves the set as it is or puts the path of the file that the name leads to at its end. -/
theorem add_cases (fs : FileSystem) (refs : ReferenceSet) (name : String) :
    (refs.add fs name).1 = refs ∨ ∃ p, (∀ q, Names fs name q → refs.contains q = false) ∧
      Leads fs refs.libraryDir name p ∧ refs.contains p = false ∧
      (refs.add fs name).1 = { refs with paths := refs.paths ++ [p] } := by
  have h := tryAdd_adds fs refs name
  rw [add_eq]
  cases ht : refs.tryAdd fs name with
  | error e => exact .inl rfl
  | ok refs' =>
    rw [ht] at h
    cases h with
    | known | present => exact .inl rfl
    | appended hown hp hc => exact .inr ⟨_, hown, hp, hc, rfl⟩

@[simp] theorem libraryDir_add (fs : FileSystem) (refs : ReferenceSet) (name : String) :
    (refs.add fs name).1.libraryDir = refs.libraryDir := by
  rcases add_cases fs refs name with h | ⟨p, -, -, -, h⟩ <;> rw [h]

/-! ## Many names -/

def addEach (fs : FileSystem) (refs : ReferenceSet) (names : List String) : ReferenceSet :=
  names.foldl (fun refs name => (refs.add fs name).1) refs

/-- The names that are not accepted, each added behind those before it. -/
def refusals (fs : FileSystem) (refs : ReferenceSet) (names : List String) : List String :=
  ((names.inits.zip names).filter fun (before, name) => !((refs.addEach fs before).add fs name).2).map Prod.snd

@[simp] theorem addEach_nil (fs : FileSystem) (refs : ReferenceSet) : refs.addEach fs [] = refs := rfl

@[simp] theorem addEach_cons (fs : FileSystem) (refs : ReferenceSet) (name : String) (names : List String) :
    refs.addEach fs (name :: names) = (refs.add fs name).1.addEach fs names := by
  unfold addEach
  rw [List.foldl_cons]

theorem refusals_cons (fs : FileSystem) (refs : ReferenceSet) (name : String) (names : List String) :
    refs.refusals fs (name :: names) =
      (if (refs.add fs name).2 then [] else [name]) ++ (refs.add fs name).1.refusals fs names := by
  have htail : ((names.inits.map fun before => name :: before).zip names).filter
      (fun (before, next) => !((refs.addEach fs before).add fs next).2) =
        ((names.inits.zip names).filter
          (fun (before, next) => !(((refs.add fs name).1.addEach fs before).add fs next).2)).map
            (Prod.map (name :: ·) id) := by
    rw [List.zip_map_left, List.filter_map]
    refine congrArg _ (List.filter_congr fun e _ => ?_)
    obtain ⟨before, next⟩ := e
    simp only [Function.comp_apply, Prod.map_apply, id_eq, addEach_cons]
  unfold refusals
  rw [List.inits_cons, List.zip_cons_cons, List.filter_cons, htail]
  cases h : (refs.add fs name).2 <;> simp [addEach, h, Function.comp_def]

/-- To add names at once is to add them one by one, and the answer is the names that are not accepted. -/
theorem addAll_eq (fs : FileSystem) (refs : ReferenceSet) (names : List String) :
    refs.addAll fs names = (refs.addEach fs names, refs.refusals fs names) := by
  induction names generalizing refs with
  | nil => rfl
  | cons name names ih =>
    rw [addAll, addEach_cons, refusals_cons]
    obtain ⟨refs', accepted⟩ := refs.add fs name
    cases accepted <;> simp [ih]

@[simp] theorem libraryDir_addEach (fs : FileSystem) (refs : ReferenceSet) (names : List String) :
    (refs.addEach fs names).libraryDir = refs.libraryDir := by
  induction names generalizing refs with
  | nil => rfl
  | cons name names ih => rw [addEach_cons, ih, libraryDir_add]

theorem mem_addEach {names : List String} (h : p ∈ (refs.addEach fs names).paths) :
    p ∈ refs.paths ∨ ∃ name ∈ names, Leads fs refs.libraryDir name p := by
  induction names generalizing refs with
  | nil => exact .inl h
  | cons name names ih =>
    rw [addEach_cons] at h
    rcases ih h with hmem | ⟨name', hn, hp⟩
    · rcases add_cases fs refs name with hs | ⟨q, -, hq, -, hs⟩
      · exact .inl (hs ▸ hmem)
      · rw [hs] at hmem
        rcases List.mem_append.mp hmem with hold | hnew
        · exact .inl hold
        · cases List.mem_singleton.mp hnew
          exact .inr ⟨name, List.mem_cons_self, hq⟩
    · rw [libraryDir_add] at hp
      exact .inr ⟨name', List.mem_cons_of_mem name hn, hp⟩

/-! ## Runs -/

inductive Request where
  | tryAdd (name : String)
  | add (name : String)
  | addAll (names : List String)
  deriving DecidableEq, Repr

def Request.names : Request → List String
  | .tryAdd name | .add name => [name]
  | .addAll names => names

/-- The set after a request; a name that is refused leaves it as it is. -/
def after (fs : FileSystem) (refs : ReferenceSet) : Request → ReferenceSet
  | .tryAdd name => (refs.tryAdd fs name).toOption.getD refs
  | .add name => (refs.add fs name).1
  | .addAll names => (refs.addAll fs names).1

/-- The set after requests that each find the file system in a state of its own. -/
def run (refs : ReferenceSet) (history : List (FileSystem × Request)) : ReferenceSet :=
  history.foldl (fun refs (fs, request) => refs.after fs request) refs

theorem after_eq (fs : FileSystem) (refs : ReferenceSet) (request : Request) :
    refs.after fs request = refs.addEach fs request.names := by
  cases request with
  | tryAdd name => simp only [after, Request.names, addEach_cons, addEach_nil, add_eq]
  | add name => rfl
  | addAll names => exact congrArg Prod.fst (addAll_eq fs refs names)

@[simp] theorem run_cons (refs : ReferenceSet) (e : FileSystem × Request) (history : List (FileSystem × Request)) :
    refs.run (e :: history) = (refs.addEach e.1 e.2.names).run history := by
  rw [← after_eq]
  rfl

/-- What adding one name keeps, a run keeps. -/
theorem run_keeps {P : ReferenceSet → Prop} (hadd : ∀ fs refs name, P refs → P (refs.add fs name).1) (h : P refs)
    (history : List (FileSystem × Request)) : P (refs.run history) := by
  have heach : ∀ fs names refs, P refs → P (refs.addEach fs names) := by
    intro fs names
    induction names with
    | nil => exact fun refs h => h
    | cons name names ih =>
      intro refs h
      rw [addEach_cons]
      exact ih _ (hadd fs refs name h)
  induction history generalizing refs with
  | nil => exact h
  | cons e history ih =>
    rw [run_cons]
    exact ih (heach e.1 e.2.names refs h)

@[simp] theorem libraryDir_run (refs : ReferenceSet) (history : List (FileSystem × Request)) :
    (refs.run history).libraryDir = refs.libraryDir :=
  run_keeps (P := fun refs' => refs'.libraryDir = refs.libraryDir)
    (fun fs refs' name h => (libraryDir_add fs refs' name).trans h) rfl history

/-- Every path in a set is that of a file to which a name in a request led. -/
theorem mem_run {history : List (FileSystem × Request)} (h : p ∈ (refs.run history).paths) :
    p ∈ refs.paths ∨ ∃ e ∈ history, ∃ name ∈ e.2.names, Leads e.1 refs.libraryDir name p := by
  induction history generalizing refs with
  | nil => exact .inl h
  | cons e history ih =>
    rw [run_cons] at h
    rcases ih h with hmem | ⟨e', he, name, hn, hp⟩
    · exact (mem_addEach hmem).imp_right fun hname => ⟨e, List.mem_cons_self, hname⟩
    · rw [libraryDir_addEach] at hp
      exact .inr ⟨e', List.mem_cons_of_mem e he, name, hn, hp⟩

/-! ## What a set keeps -/

/-- No path is in a set twice. -/
def Unique (refs : ReferenceSet) : Prop := refs.paths.Pairwise fun p q => p.same q = false

theorem Unique.add (h : refs.Unique) (fs : FileSystem) (name : String) : (refs.add fs name).1.Unique := by
  rcases add_cases fs refs name with hs | ⟨p, -, -, hc, hs⟩
  · rw [hs]
    exact h
  · rw [hs]
    unfold Unique
    dsimp only
    rw [List.pairwise_append]
    refine ⟨h, List.pairwise_singleton _ p, fun q hq p' hp' => ?_⟩
    cases List.mem_singleton.mp hp'
    exact Bool.eq_false_iff.mpr (List.any_eq_false.mp hc q hq)

theorem unique_run (cwd dir : Path) (history : List (FileSystem × Request)) : ((empty cwd dir).run history).Unique :=
  run_keeps (fun fs _ name h => h.add fs name) List.Pairwise.nil history

/-- However a set has been added to, and whatever became of the files meanwhile, it holds no path twice, and each
of its paths is that of a file to which a name led: the absolute form of that name, or one file name joined to the
library directory. To add one more name is refused and changes nothing, or it changes nothing, or it puts one path
at the end; to add names at once is to add them one by one, and tells just those that were refused, in order. -/
theorem references_stay_unique (cwd dir : Path) (history : List (FileSystem × Request)) :
    let libraryDir := (empty cwd dir).libraryDir
    let refs := (empty cwd dir).run history
    refs.Unique ∧
    (∀ fs name, Adds fs libraryDir refs name (refs.tryAdd fs name)) ∧
    (∀ fs name, refs.add fs name = ((refs.tryAdd fs name).toOption.getD refs, (refs.tryAdd fs name).isOk)) ∧
    (∀ fs names, refs.addAll fs names = (refs.addEach fs names, refs.refusals fs names)) ∧
    (∀ p ∈ refs.paths, ∃ e ∈ history, ∃ name ∈ e.2.names, Leads e.1 libraryDir name p) ∧
    ∀ fs name p, Finds fs libraryDir name p → Path.absolute? fs.cwd ⟨Text.trim name⟩ = some p ∨
      ∃ text, Path.IsName text ∧ p = libraryDir.join ⟨text⟩ ∧
        p.components = libraryDir.components ++ [.name text] := by
  intro libraryDir refs
  refine ⟨unique_run cwd dir history, fun fs name => ?adds, fun fs name => add_eq fs refs name,
    fun fs names => addAll_eq fs refs names, fun p hp => ?led, fun fs name p hp => hp.cases⟩
  case adds =>
    have h := tryAdd_adds fs refs name
    rwa [libraryDir_run] at h
  case led => exact (mem_run hp).resolve_left List.not_mem_nil

/-- A working directory with a file that can be opened and one that cannot, and a library with another. -/
def shelf : FileSystem :=
  ⟨⟨"/w"⟩, [(["w"], .dir), (["w", "a"], .file []), (["w", "s"], .locked), (["lib"], .dir), (["lib", "b"], .file [])]⟩

/-- The first file is added and then removed; all files are asked for afterwards, and one that never was. -/
def shelfHistory : List (FileSystem × Request) :=
  [(shelf, .tryAdd " a\n"), (shelf.remove ["w", "a"], .addAll ["./a/", "x/b", "s", "c"])]

theorem shelf_finds : Finds shelf (empty ⟨"/w"⟩ ⟨"/lib"⟩).libraryDir "x/b" ⟨"/lib/b"⟩ := by
  have hlibrary : (empty ⟨"/w"⟩ ⟨"/lib"⟩).libraryDir = ⟨"/lib"⟩ := by decide +kernel
  have hjoin : Path.join ⟨"/lib"⟩ ⟨"b"⟩ = ⟨"/lib/b"⟩ := by decide +kernel
  have hp : Path.absolute? shelf.cwd ⟨Text.trim "x/b"⟩ = some ⟨"/w/x/b"⟩ := by decide +kernel
  have hnone : shelf.isFile ⟨"/w/x/b"⟩ = false := by decide +kernel
  have ht : Path.fileName? ⟨Text.trim "x/b"⟩ = some "b" := by decide +kernel
  have hf : shelf.isFile (Path.join ⟨"/lib"⟩ ⟨"b"⟩) = true := by decide +kernel
  have hfinds : Finds shelf ⟨"/lib"⟩ "x/b" (Path.join ⟨"/lib"⟩ ⟨"b"⟩) := .inLibrary hp hnone ht hf
  rw [hjoin] at hfinds
  rw [hlibrary]
  exact hfinds

/-- A file that is gone stays in the set, and its name is not refused again; one that cannot be opened is refused. -/
theorem references_outlive_files :
    ((empty ⟨"/w"⟩ ⟨"/lib"⟩).run shelfHistory).paths = [⟨"/w/a"⟩, ⟨"/lib/b"⟩] ∧
    (((empty ⟨"/w"⟩ ⟨"/lib"⟩).run (shelfHistory.take 1)).addAll (shelf.remove ["w", "a"])
      ["./a/", "x/b", "s", "c"]).2 = ["s", "c"] ∧
    (∃ e ∈ shelfHistory, ∃ name ∈ e.2.names, Leads e.1 (empty ⟨"/w"⟩ ⟨"/lib"⟩).libraryDir name ⟨"/lib/b"⟩) ∧
    (Path.absolute? shelf.cwd ⟨Text.trim "x/b"⟩ = some ⟨"/lib/b"⟩ ∨
      ∃ text, Path.IsName text ∧ Path.mk "/lib/b" = (empty ⟨"/w"⟩ ⟨"/lib"⟩).libraryDir.join ⟨text⟩ ∧
        (Path.mk "/lib/b").components = (empty ⟨"/w"⟩ ⟨"/lib"⟩).libraryDir.components ++ [.name text]) := by
  have hpaths : ((empty ⟨"/w"⟩ ⟨"/lib"⟩).run shelfHistory).paths = [⟨"/w/a"⟩, ⟨"/lib/b"⟩] := by decide +kernel
  obtain ⟨-, -, -, -, hled, hcases⟩ := references_stay_unique ⟨"/w"⟩ ⟨"/lib"⟩ shelfHistory
  have hmem : Path.mk "/lib/b" ∈ ((empty ⟨"/w"⟩ ⟨"/lib"⟩).run shelfHistory).paths := by
    rw [hpaths]
    exact List.mem_cons_of_mem _ List.mem_cons_self
  exact ⟨hpaths, by decide +kernel, hled _ hmem, hcases shelf "x/b" _ shelf_finds⟩

end ReferenceSet

end ComponentHost
