import ComponentHost.Proofs.Reference.Additions

/-! # Absolute references

The paths in a set are absolute, and stand for files of their own wherever they are seen from, when the library
directory is not the empty path. The empty path has no absolute form; a file name in it is relative, and may lead to
a file that the set holds already. -/
set_option autoImplicit false

namespace ComponentHost.ReferenceSet

variable {cwd dir here p q : Path} {history : List (FileSystem × Request)}

/-- Every state of the file system in a history has an absolute working directory. -/
def Rooted (history : List (FileSystem × Request)) : Prop := ∀ e ∈ history, e.1.cwd.isAbsolute = true

/-- Two paths have absolute forms that are not the same. -/
def Apart (here p q : Path) : Prop :=
  ∃ a b, Path.absolute? here p = some a ∧ Path.absolute? here q = some b ∧ a.same b = false

theorem libraryDir_isAbsolute (hcwd : cwd.isAbsolute = true) (hdir : dir.text ≠ "") :
    (empty cwd dir).libraryDir.isAbsolute = true := by
  unfold empty
  cases ha : Path.absolute? cwd dir with
  | none => exact absurd (String.isEmpty_iff.mp (Path.absolute?_eq_none_iff.mp ha)) hdir
  | some a => exact Path.isAbsolute_of_absolute? hcwd ha

theorem Finds.isAbsolute {fs : FileSystem} {libraryDir : Path} {name : String} (h : Finds fs libraryDir name p)
    (hcwd : fs.cwd.isAbsolute = true) (hdir : libraryDir.isAbsolute = true) : p.isAbsolute = true := by
  rcases h.cases with hown | ⟨text, hname, rfl, -⟩
  · exact Path.isAbsolute_of_absolute? hcwd hown
  · exact Path.isAbsolute_join hdir hname

theorem isAbsolute_of_mem_run (hcwd : cwd.isAbsolute = true) (hdir : dir.text ≠ "") (hh : Rooted history)
    (hp : p ∈ ((empty cwd dir).run history).paths) : p.isAbsolute = true := by
  obtain ⟨e, he, name, -, hleads⟩ := (mem_run hp).resolve_left List.not_mem_nil
  exact hleads.finds.isAbsolute (hh e he) (libraryDir_isAbsolute hcwd hdir)

theorem apart_of_isAbsolute (here : Path) (hp : p.isAbsolute = true) (hq : q.isAbsolute = true)
    (h : p.same q = false) : Apart here p q := by
  obtain ⟨a, ha, hac⟩ := Path.absolute?_of_isAbsolute here hp
  obtain ⟨b, hb, hbc⟩ := Path.absolute?_of_isAbsolute here hq
  refine ⟨a, b, ha, hb, ?_⟩
  rwa [Path.same, hac, hbc]

/-- From the empty library directory a file of the working directory is taken by its name alone. -/
theorem run_empty_library (cwd : Path) :
    ((empty cwd ⟨""⟩).run [(shelf, .addAll ["a", "x/a"])]).paths = [⟨"/w/a"⟩, ⟨"a"⟩] := by
  have hempty : empty cwd ⟨""⟩ = ⟨⟨""⟩, []⟩ := rfl
  rw [hempty]
  decide +kernel

/-- All that is ever in a set is absolute, and no two of its paths are made the same by making them absolute, just
when the library directory is not the empty path. -/
theorem paths_absolute_iff (hcwd : cwd.isAbsolute = true) :
    dir.text ≠ "" ↔ ∀ history, Rooted history →
      (∀ p ∈ ((empty cwd dir).run history).paths, p.isAbsolute = true) ∧
      ∀ here, ((empty cwd dir).run history).paths.Pairwise (Apart here) := by
  constructor
  · intro hdir history hh
    have habs : ∀ p ∈ ((empty cwd dir).run history).paths, p.isAbsolute = true :=
      fun p hp => isAbsolute_of_mem_run hcwd hdir hh hp
    refine ⟨habs, fun here => ?_⟩
    exact (unique_run cwd dir history).imp_of_mem fun hp hq => apart_of_isAbsolute here (habs _ hp) (habs _ hq)
  · rintro h hempty
    obtain ⟨text⟩ := dir
    cases hempty
    have hrooted : Rooted [(shelf, .addAll ["a", "x/a"])] := by
      intro e he
      cases List.mem_singleton.mp he
      decide +kernel
    have hrelative := (h _ hrooted).1 ⟨"a"⟩
    rw [run_empty_library] at hrelative
    exact absurd (hrelative (List.mem_cons_of_mem _ List.mem_cons_self)) (by decide +kernel)

/-- A relative library directory and a relative name lead to two files. -/
theorem relative_library_made_absolute :
    (Path.mk "/w").isAbsolute = true ∧ Rooted [(shelf, .addAll ["a", "x/b"])] ∧
      ((empty ⟨"/w"⟩ ⟨"../lib"⟩).run [(shelf, .addAll ["a", "x/b"])]).paths = [⟨"/w/a"⟩, ⟨"/w/../lib/b"⟩] ∧
      (Path.mk "/w/../lib/b").isAbsolute = true ∧ [Path.mk "/w/a", ⟨"/w/../lib/b"⟩].Pairwise (Apart ⟨"/"⟩) := by
  have hcwd : (Path.mk "/w").isAbsolute = true := by decide +kernel
  have hrooted : Rooted [(shelf, .addAll ["a", "x/b"])] := by
    intro e he
    cases List.mem_singleton.mp he
    exact hcwd
  have hpaths : ((empty ⟨"/w"⟩ ⟨"../lib"⟩).run [(shelf, .addAll ["a", "x/b"])]).paths =
      [⟨"/w/a"⟩, ⟨"/w/../lib/b"⟩] := by decide +kernel
  have hdir : (Path.mk "../lib").text ≠ "" := by decide +kernel
  obtain ⟨habs, hapart⟩ := (paths_absolute_iff hcwd).mp hdir _ hrooted
  rw [hpaths] at habs hapart
  exact ⟨hcwd, hrooted, hpaths, habs _ (List.mem_cons_of_mem _ List.mem_cons_self), hapart ⟨"/"⟩⟩

/-- A set with the empty library directory holds one file twice, once under a relative path. -/
theorem empty_library_repeats_file :
    ((empty ⟨"/w"⟩ ⟨""⟩).run [(shelf, .addAll ["a", "x/a"])]).paths = [⟨"/w/a"⟩, ⟨"a"⟩] ∧
      (Path.mk "a").isAbsolute = false ∧ Path.absolute? shelf.cwd ⟨"a"⟩ = some ⟨"/w/a"⟩ ∧
      Path.absolute? shelf.cwd ⟨"/w/a"⟩ = some ⟨"/w/a"⟩ ∧ ¬ Apart shelf.cwd ⟨"/w/a"⟩ ⟨"a"⟩ := by
  have ha : Path.absolute? shelf.cwd ⟨"a"⟩ = some ⟨"/w/a"⟩ := by decide +kernel
  have hwa : Path.absolute? shelf.cwd ⟨"/w/a"⟩ = some ⟨"/w/a"⟩ := by decide +kernel
  refine ⟨run_empty_library ⟨"/w"⟩, by decide +kernel, ha, hwa, ?_⟩
  rintro ⟨a, b, h, h', hsame⟩
  cases hwa.symm.trans h
  cases ha.symm.trans h'
  exact absurd hsame (by decide +kernel)

end ComponentHost.ReferenceSet
