import ComponentHost.Proofs.Boundary.Aging
import ComponentHost.Proofs.Session.Ledger

/-! # Unloading

A run unloads a boundary when it asks so through a context of it. From then on, and only then, every use of
the boundary is refused, through whatever handle: nothing is run and nothing changes. -/
set_option autoImplicit false

namespace ComponentHost.Session

def lifecycle? (s : Session) (b : Nat) : Option Lifecycle :=
  (s.boundaries[b]?).map Boundary.lifecycle

/-- A run unloads a boundary. -/
def Unloads (s : Session) (ops : List SessionStep) (b : Nat) : Prop :=
  ∃ before of name after t, ops = before ++ .unload of name :: after ∧ s.run before = .ok t ∧
    t.handle? of = some (.context b)

/-! ## How the boundaries of a session age -/

/-- What may become of the boundaries of a session by anything but unloading. -/
structure Ages (s t : Session) : Prop where
  old : ∀ (n : Nat) (boundary : Boundary), s.boundaries[n]? = some boundary →
    ∃ boundary', t.boundaries[n]? = some boundary' ∧ boundary.Ages boundary'
  new : ∀ (n : Nat) (boundary' : Boundary), s.boundaries[n]? = none →
    t.boundaries[n]? = some boundary' → boundary'.lifecycle ≠ .unloadRequested

namespace Ages

variable {s t u : Session}

theorem of_eq (h : t.boundaries = s.boundaries) : s.Ages t where
  old := fun n boundary hn => ⟨boundary, h ▸ hn, .of_eq rfl⟩
  new := fun n boundary' hn ht => by
    rw [h, hn] at ht
    cases ht

theorem trans (h : s.Ages t) (h' : t.Ages u) : s.Ages u where
  old := fun n boundary hn => by
    obtain ⟨boundary', ht, ha⟩ := h.old n boundary hn
    obtain ⟨boundary'', hu, ha'⟩ := h'.old n boundary' ht
    exact ⟨boundary'', hu, ha.trans ha'⟩
  new := fun n boundary'' hn hu => by
    cases ht : t.boundaries[n]? with
    | none => exact h'.new n boundary'' ht hu
    | some boundary' =>
      obtain ⟨x, hx, ha⟩ := h'.old n boundary' ht
      cases hu.symm.trans hx
      exact fun hc => h.new n boundary' hn ht (ha.unloaded.mp hc)

theorem update (s : Session) (b : Nat) {f : Boundary → Boundary}
    (hf : ∀ boundary : Boundary, boundary.Ages (f boundary)) : s.Ages (s.update b f) where
  old := fun n boundary hn => by
    rw [Session.update, List.getElem?_modify, hn]
    refine ⟨_, rfl, ?_⟩
    split
    · exact hf boundary
    · exact .of_eq rfl
  new := fun n boundary' hn ht => by
    rw [Session.update, List.getElem?_modify, hn] at ht
    cases ht

theorem acquire (s : Session) (h : Handle) : s.Ages (s.acquire h) := by
  unfold Session.acquire
  split
  · exact update s _ fun boundary => boundary.ages_acquire h.share
  · exact of_eq rfl

theorem release (s : Session) (h : Handle) : s.Ages (s.release h) := by
  unfold Session.release
  split
  · exact update s _ fun boundary => boundary.ages_release h.share
  · exact of_eq rfl

theorem drop (s : Session) (name : String) : s.Ages (s.drop name) := by
  unfold Session.drop
  split
  · exact of_eq rfl
  · next h _ =>
    have hr : s.Ages (s.remove name) := of_eq rfl
    exact hr.trans (release _ h)

theorem bind (s : Session) (name : String) (h : Handle) : s.Ages (s.bind name h) :=
  (drop s name).trans (of_eq rfl)

theorem add (s : Session) (name : String) (h : Handle) : s.Ages (s.add name h) :=
  (acquire s h).trans (bind _ name h)

theorem place (s : Session) (name : String) {boundary : Boundary}
    (hb : boundary.lifecycle ≠ .unloadRequested) : s.Ages (s.place name boundary) := by
  have happend : s.Ages (({ s with
      boundaries := s.boundaries ++ [boundary]
      nextId := s.nextId + 2 } : Session).recordLoad name (some s.boundaries.length)) := by
    refine ⟨fun n old hn => ?_, fun n new hn ht => ?_⟩
    · have hlt := (List.getElem?_eq_some_iff.mp hn).1
      exact ⟨old, (List.getElem?_append_left hlt).trans hn, .of_eq rfl⟩
    · rcases Accounted.getElem?_concat_cases ht with ⟨ht, -⟩ | ⟨-, rfl⟩
      · cases hn.symm.trans ht
      · exact hb
  have hcontext := happend.trans (bind _ name (.context s.boundaries.length))
  unfold Session.place
  dsimp only
  split
  · exact hcontext.trans (bind _ _ _)
  · exact hcontext

end Ages

theorem Move.ages {s t : Session} (hm : Move s t) : s.Ages t := by
  cases hm with
  | idle hb => exact .of_eq hb
  | make name | observe name | token name => exact .add s name _
  | drop name => exact .drop s name
  | use b providers => exact .update s b fun boundary => boundary.ages_withProviders providers
  | store => exact .of_eq rfl
  | load name id baseDir maxMemoryBytes loaded =>
    exact .place s name (Boundary.make_lifecycle id baseDir maxMemoryBytes loaded)

theorem Moves.ages {s t : Session} (h : Moves s t) : s.Ages t :=
  h.keep (P := fun u => s.Ages u) (fun hs hm => hs.trans hm.ages) (.of_eq rfl)

/-! ## Which boundaries a run unloads -/

variable {s t : Session} {b : Nat} {op : SessionStep} {ops : List SessionStep} {a : SessionAnswer}

theorem Ages.unloaded_iff (h : s.Ages t) (b : Nat) :
    t.lifecycle? b = some .unloadRequested ↔ s.lifecycle? b = some .unloadRequested := by
  unfold lifecycle?
  cases hb : s.boundaries[b]? with
  | none =>
    refine ⟨fun ht => ?_, nofun⟩
    obtain ⟨boundary', hb', hl⟩ := Option.map_eq_some_iff.mp ht
    exact absurd hl (h.new b boundary' hb hb')
  | some boundary =>
    obtain ⟨boundary', hb', ha⟩ := h.old b boundary hb
    rw [hb', Option.map_some, Option.map_some, Option.some.injEq, Option.some.injEq]
    exact ha.unloaded

theorem Ages.active (h : s.Ages t) (hb : b < s.boundaries.length)
    (ht : t.lifecycle? b = some .active) : s.lifecycle? b = some .active := by
  obtain ⟨boundary', hb', ha⟩ := h.old b _ (List.getElem?_eq_getElem hb)
  rw [lifecycle?, hb', Option.map_some, Option.some.injEq] at ht
  rw [lifecycle?, List.getElem?_eq_getElem hb, Option.map_some, ha.active ht]

theorem lifecycle?_requestUnload (s : Session) (b n : Nat) :
    (s.update b Boundary.requestUnload).lifecycle? n =
      if b = n then (s.lifecycle? n).map fun _ => .unloadRequested else s.lifecycle? n := by
  unfold lifecycle?
  rw [update, List.getElem?_modify]
  split <;> cases s.boundaries[n]? <;> simp

/-- A step that unloads a boundary. -/
def UnloadsNow (s : Session) (op : SessionStep) (b : Nat) : Prop :=
  ∃ of name, op = .unload of name ∧ s.handle? of = some (.context b)

theorem unloads_nil : ¬ s.Unloads [] b := by
  rintro ⟨before, of, name, after, t, he, -⟩
  exact absurd he.symm (List.append_ne_nil_of_right_ne_nil before (List.cons_ne_nil _ _))

theorem unloads_cons (h : s.step op = .ok (t, a)) :
    s.Unloads (op :: ops) b ↔ s.UnloadsNow op b ∨ t.Unloads ops b := by
  constructor
  · rintro ⟨before, of, name, after, u, he, hr, ho⟩
    cases before with
    | nil =>
      cases hr
      exact Or.inl ⟨of, name, (List.cons.inj he).1, ho⟩
    | cons op' before =>
      obtain ⟨rfl, hrest⟩ := List.cons.inj he
      exact Or.inr ⟨before, of, name, after, u, hrest, (run_cons h).mp hr, ho⟩
  · rintro (⟨of, name, rfl, ho⟩ | ⟨before, of, name, after, u, rfl, hr, ho⟩)
    · exact ⟨[], of, name, ops, s, rfl, rfl, ho⟩
    · exact ⟨op :: before, of, name, after, u, rfl, (run_cons h).mpr hr, ho⟩

theorem Kept.step_unloaded_iff (hk : s.Kept []) (h : s.step op = .ok (t, a)) (b : Nat) :
    t.lifecycle? b = some .unloadRequested ↔
      s.lifecycle? b = some .unloadRequested ∨ s.UnloadsNow op b := by
  -- the step unloads this boundary, another one, or none
  by_cases hu : s.UnloadsNow op b
  · obtain ⟨of, name, rfl, hof⟩ := id hu
    have hb := hk.placed _ (mem_of_handle? hof) b rfl
    rw [(unload_moves hk.placed hof h).ages.unloaded_iff, lifecycle?_requestUnload, if_pos rfl,
      lifecycle?, List.getElem?_eq_getElem hb]
    exact iff_of_true rfl (Or.inr hu)
  · rw [or_iff_left hu]
    rcases step_moves hk.placed h with hm | ⟨of, name, b', rfl, hof, hm⟩
    · exact hm.ages.unloaded_iff b
    · have hne : b' ≠ b := fun hbb => hu ⟨of, name, rfl, hbb ▸ hof⟩
      rw [hm.ages.unloaded_iff, lifecycle?_requestUnload, if_neg hne]

/-- A boundary is unloaded after a run if it was before, or the run unloads it. -/
theorem Kept.run_unloaded_iff (hk : s.Kept []) (h : s.run ops = .ok t) (b : Nat) :
    t.lifecycle? b = some .unloadRequested ↔
      s.lifecycle? b = some .unloadRequested ∨ s.Unloads ops b := by
  induction ops generalizing s with
  | nil =>
    cases h
    rw [or_iff_left unloads_nil]
  | cons op ops ih =>
    obtain ⟨u, a, hs, hr⟩ := run_cons_ok h
    rw [ih (hk.step hs) hr, hk.step_unloaded_iff hs, unloads_cons hs, or_assoc]

theorem Kept.run_not_active (hk : s.Kept []) (hb : b < s.boundaries.length)
    (hn : s.lifecycle? b ≠ some .active) (h : s.run ops = .ok t) : t.lifecycle? b ≠ some .active := by
  refine (hk.run_keep
    (P := fun u => b < u.boundaries.length ∧ u.lifecycle? b ≠ some .active) ?_ ?_ ⟨hb, hn⟩ h).2
  · exact fun hu hm => ⟨Nat.lt_of_lt_of_le hu.1 hm.length_le, fun ha => hu.2 (hm.ages.active hu.1 ha)⟩
  · intro u b' hu
    rw [update_length, lifecycle?_requestUnload]
    refine ⟨hu.1, ?_⟩
    split
    · cases u.lifecycle? b <;> exact nofun
    · exact hu.2

end ComponentHost.Session
