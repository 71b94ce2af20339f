import ComponentHost.Proofs.Reference.Additions

/-! # Adding a batch again

A set loses no path while it is added to, so a name that it accepts it accepts ever after. A name that has been
added once, with whatever answer, adds nothing when it is added again: the file that it leads to is in the set, or
there is none. -/
set_option autoImplicit false

namespace ComponentHost.ReferenceSet

/-- A set with the same library directory that holds every path of another. -/
structure Extends (refs refs' : ReferenceSet) : Prop where
  libraryDir : refs'.libraryDir = refs.libraryDir
  contains : ∀ p, refs.contains p = true → refs'.contains p = true

def Accepts (fs : FileSystem) (refs : ReferenceSet) (name : String) : Prop :=
  ∃ refs', refs.tryAdd fs name = .ok refs'

variable {fs : FileSystem} {refs refs' refs'' : ReferenceSet} {name : String} {names : List String}

/-! ## Larger sets -/

theorem Extends.refl (refs : ReferenceSet) : Extends refs refs := ⟨rfl, fun _ h => h⟩

theorem Extends.trans (h : Extends refs refs') (h' : Extends refs' refs'') : Extends refs refs'' :=
  ⟨h'.libraryDir.trans h.libraryDir, fun p hp => h'.contains p (h.contains p hp)⟩

theorem extends_add (fs : FileSystem) (refs : ReferenceSet) (name : String) :
    Extends refs (refs.add fs name).1 := by
  refine ⟨libraryDir_add fs refs name, fun q hq => ?_⟩
  rcases add_cases fs refs name with h | ⟨p, -, -, -, h⟩
  · rw [h]
    exact hq
  · rw [h, ReferenceSet.contains, List.any_append]
    exact Bool.or_eq_true_iff.mpr (.inl hq)

theorem extends_addEach (fs : FileSystem) (refs : ReferenceSet) (names : List String) :
    Extends refs (refs.addEach fs names) := by
  induction names generalizing refs with
  | nil => exact .refl refs
  | cons name names ih =>
    rw [addEach_cons]
    exact (extends_add fs refs name).trans (ih _)

theorem extends_run (refs : ReferenceSet) (history : List (FileSystem × Request)) : Extends refs (refs.run history) :=
  run_keeps (fun fs refs' name h => h.trans (extends_add fs refs' name)) (.refl refs) history

/-! ## Names that were added before -/

theorem Accepts.mono (h : refs.Accepts fs name) (he : Extends refs refs') : refs'.Accepts fs name := by
  obtain ⟨accepted, hok⟩ := h
  have hold := hok ▸ tryAdd_adds fs refs name
  have hnew := tryAdd_adds fs refs' name
  cases ht : refs'.tryAdd fs name with
  | ok refs'' => exact ⟨refs'', ht⟩
  | error e =>
    -- the larger set would have to lack the name's own path, and no file that can be opened be there
    rw [ht, he.libraryDir] at hnew
    cases hnew with
    | blank hblank =>
      have hvisible : ∃ c ∈ name.toList, Text.isBlank c = false := by
        cases hold with
        | known hp _ | present hp _ => exact hp.notBlank
        | appended _ hp _ => exact hp.finds.notBlank
      obtain ⟨c, hc, hc'⟩ := hvisible
      cases hc'.symm.trans (hblank c hc)
    | unresolved _ hown hnone =>
      cases hold with
      | known hp hc => cases (hown _ hp).symm.trans (he.contains _ hc)
      | present hp _ => exact absurd hp (hnone _)
      | appended _ hp _ => exact absurd hp.finds (hnone _)
    | invalid hown hp hlacks hf =>
      cases hold with
      | known hp hc => cases (hown _ hp).symm.trans (he.contains _ hc)
      | present hp' hc => cases hlacks.symm.trans (he.contains _ (hp'.unique hp ▸ hc))
      | appended _ hp' _ =>
        obtain ⟨content, hr⟩ := hp'.opens
        rw [hp'.finds.unique hp, FileSystem.read, hf] at hr
        cases hr

/-- After a name has been added that leads to a file, the set holds the name's own path or that of the file. -/
theorem contains_add_of_leads {p : Path} (hp : Leads fs refs.libraryDir name p) :
    ∃ q, (Names fs name q ∨ Finds fs refs.libraryDir name q) ∧ (refs.add fs name).1.contains q = true := by
  have hadds := tryAdd_adds fs refs name
  rw [add_eq]
  cases ht : refs.tryAdd fs name with
  | error e =>
    rw [ht] at hadds
    cases hadds with
    | blank hblank =>
      obtain ⟨c, hc, hvisible⟩ := hp.finds.notBlank
      cases hvisible.symm.trans (hblank c hc)
    | unresolved _ _ hnone => exact absurd hp.finds (hnone p)
    | invalid _ hp' _ hf =>
      obtain ⟨content, hr⟩ := hp.opens
      rw [hp.finds.unique hp', FileSystem.read, hf] at hr
      cases hr
  | ok added =>
    rw [ht] at hadds
    cases hadds with
    | known hq hk => exact ⟨_, .inl hq, hk⟩
    | present hq hk => exact ⟨_, .inr hq, hk⟩
    | appended _ hq _ =>
      exact ⟨_, .inr hq.finds, contains_iff.mpr ⟨_, List.mem_append_right _ (List.mem_singleton_self _), rfl⟩⟩

/-- A name that has been added, with whatever answer, adds nothing to a larger set. -/
theorem add_eq_self (he : Extends (refs.add fs name).1 refs') : (refs'.add fs name).1 = refs' := by
  rcases add_cases fs refs' name with hs | ⟨p, hown, hp, hc, -⟩
  · exact hs
  · -- the name leads to a file that the larger set lacks, but the first addition put it there
    have hlibrary := he.libraryDir
    rw [libraryDir_add] at hlibrary
    rw [hlibrary] at hp
    obtain ⟨q, hq, hheld⟩ := contains_add_of_leads hp
    have hlacks : refs'.contains q = false := by
      rcases hq with hq | hq
      · exact hown q hq
      · exact hp.finds.unique hq ▸ hc
    cases hlacks.symm.trans (he.contains q hheld)

/-! ## Batches -/

/-- Names that a set does not gain from are all that is told of them. -/
theorem addAll_of_add_eq_self (h : ∀ name ∈ names, (refs.add fs name).1 = refs) :
    refs.addAll fs names = (refs, names.filter fun name => !(refs.add fs name).2) := by
  induction names with
  | nil => rfl
  | cons name names ih =>
    obtain ⟨hname, hnames⟩ := List.forall_mem_cons.mp h
    have hrest := ih hnames
    cases hadd : refs.add fs name with
    | mk refs' accepted =>
      rw [hadd] at hname
      cases hname
      rw [addAll, List.filter_cons, hadd]
      cases accepted <;> simp [hrest]

theorem add_eq_self_of_mem (h : name ∈ names) :
    ((refs.addEach fs names).add fs name).1 = refs.addEach fs names := by
  induction names generalizing refs with
  | nil => cases h
  | cons first names ih =>
    rw [addEach_cons]
    rcases List.mem_cons.mp h with rfl | h
    · exact add_eq_self (extends_addEach fs _ names)
    · exact ih h

theorem accepts_iff : refs.Accepts fs name ↔ (refs.add fs name).2 = true := by
  unfold Accepts
  rw [add_eq]
  cases refs.tryAdd fs name <;> simp [Except.isOk, Except.toBool]

/-- What a set refuses that holds all that a batch adds was refused in the batch. -/
theorem filter_sublist_refusals (he : Extends (refs.addEach fs names) refs') :
    (names.filter fun name => !(refs'.add fs name).2).Sublist (refs.refusals fs names) := by
  induction names generalizing refs with
  | nil => exact .slnil
  | cons name names ih =>
    rw [addEach_cons] at he
    rw [refusals_cons, List.filter_cons]
    have hrest := ih he
    cases hname : (refs.add fs name).2 with
    | true =>
      have hlater := (accepts_iff.mpr hname).mono
        ((extends_add fs refs name).trans ((extends_addEach fs _ names).trans he))
      rw [accepts_iff.mp hlater]
      exact hrest
    | false =>
      cases (refs'.add fs name).2 with
      | true => exact hrest.cons name
      | false => exact hrest.cons_cons name

/-- As long as the files stay, a name that is accepted is accepted in every set that the set becomes. A batch that is
added again leaves the set as it is, refuses only what it refused before, and neither refuses nor adds a name that it
accepted. -/
theorem additions_settle (fs : FileSystem) (refs : ReferenceSet) (requests : List Request) (names : List String) :
    (∀ name, refs.Accepts fs name → (refs.run (requests.map fun request => (fs, request))).Accepts fs name) ∧
    ((refs.addAll fs names).1.addAll fs names).1 = (refs.addAll fs names).1 ∧
    ((refs.addAll fs names).1.addAll fs names).2.Sublist (refs.addAll fs names).2 ∧
    ∀ before name behind, names = before ++ name :: behind → (refs.addEach fs before).Accepts fs name →
      (refs.addAll fs names).1.tryAdd fs name = .ok (refs.addAll fs names).1 := by
  have hself : ∀ name ∈ names, ((refs.addEach fs names).add fs name).1 = refs.addEach fs names :=
    fun name hn => add_eq_self_of_mem hn
  rw [addAll_eq fs refs names]
  dsimp only
  rw [addAll_of_add_eq_self hself]
  refine ⟨fun name h => h.mono (extends_run refs _), rfl, filter_sublist_refusals (.refl _), ?_⟩
  rintro before name behind rfl h
  have hbefore : Extends (refs.addEach fs before) (refs.addEach fs (before ++ name :: behind)) := by
    unfold addEach
    rw [List.foldl_append]
    exact extends_addEach fs _ (name :: behind)
  obtain ⟨later, hlater⟩ := h.mono hbefore
  have hsame := hself name (List.mem_append_right before List.mem_cons_self)
  rw [add_eq, hlater] at hsame
  rw [hlater, ← hsame]
  rfl

/-- A name with a slash at its end is refused alone and known once its file has been added under another. -/
theorem slash_known_after_file :
    (¬ (empty ⟨"/w"⟩ ⟨"/lib"⟩).Accepts shelf "a/") ∧
    ((empty ⟨"/w"⟩ ⟨"/lib"⟩).addAll shelf ["a/", "a"]).2 = ["a/"] ∧
    ((empty ⟨"/w"⟩ ⟨"/lib"⟩).Accepts shelf "a" ∧
      ((empty ⟨"/w"⟩ ⟨"/lib"⟩).run ([.addAll ["a/", "a"]].map fun request => (shelf, request))).Accepts shelf "a") ∧
    (((empty ⟨"/w"⟩ ⟨"/lib"⟩).addEach shelf ["a/"]).Accepts shelf "a" ∧
      ((empty ⟨"/w"⟩ ⟨"/lib"⟩).addAll shelf ["a/", "a"]).1.tryAdd shelf "a" =
        .ok ((empty ⟨"/w"⟩ ⟨"/lib"⟩).addAll shelf ["a/", "a"]).1) ∧
    (((empty ⟨"/w"⟩ ⟨"/lib"⟩).addAll shelf ["a/", "a"]).1.addAll shelf ["a/", "a"]).2 = [] := by
  obtain ⟨hmono, -, -, hagain⟩ := additions_settle shelf (empty ⟨"/w"⟩ ⟨"/lib"⟩) [.addAll ["a/", "a"]] ["a/", "a"]
  have hslash : ((empty ⟨"/w"⟩ ⟨"/lib"⟩).add shelf "a/").2 = false := by decide +kernel
  have ha : (empty ⟨"/w"⟩ ⟨"/lib"⟩).Accepts shelf "a" := accepts_iff.mpr (by decide +kernel)
  have hbehind : ((empty ⟨"/w"⟩ ⟨"/lib"⟩).addEach shelf ["a/"]).Accepts shelf "a" :=
    accepts_iff.mpr (by decide +kernel)
  refine ⟨fun h => ?_, by decide +kernel, ⟨ha, hmono "a" ha⟩, ⟨hbehind, hagain ["a/"] "a" [] rfl hbehind⟩,
    by decide +kernel⟩
  cases hslash.symm.trans (accepts_iff.mp h)

end ComponentHost.ReferenceSet
