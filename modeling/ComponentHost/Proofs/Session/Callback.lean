import ComponentHost.Proofs.Session.Unloading

/-! # The callback

The callback of a load is called once: when its boundary is unloaded, or when the last context, module,
entry point or instance of it goes, whichever comes first. Compiled scripts and observers have no part in
it. A load that made no boundary has no callback to call. -/
set_option autoImplicit false

namespace ComponentHost.Session

/-- How many times the callback of a boundary has been called. -/
def calls (s : Session) (b : Nat) : Nat := ((s.boundaries[b]?).map Boundary.fired).getD 0

variable {s t u : Session} {name : String} {op : SessionStep} {ops : List SessionStep}
  {a : SessionAnswer} {b : Nat}

/-! ## The calls of a boundary -/

theorem Kept.calls_iff (hk : s.Kept []) (hb : b < s.boundaries.length) :
    s.calls b ≤ 1 ∧ (s.calls b = 1 ↔ s.lifecycle? b = some .unloadRequested ∨
      ¬ ∃ e ∈ s.handles, e.2.owns b = true) := by
  have hget := List.getElem?_eq_getElem hb
  have hcalls : s.calls b = s.boundaries[b].fired := by rw [calls, hget]; rfl
  have hlife : s.lifecycle? b = some .unloadRequested ↔
      s.boundaries[b].lifecycle = .unloadRequested := by
    rw [lifecycle?, hget, Option.map_some, Option.some.injEq]
  have howns : (s.handles.map Prod.snd).countP (·.owns b) = 0 ↔
      ¬ ∃ e ∈ s.handles, e.2.owns b = true := by
    rw [exists_handle_iff, Nat.not_lt, Nat.le_zero]
  rw [hcalls, hlife, ← howns, (hk.accounted.tallied b _ hget).fired_eq, List.nil_append]
  split
  · next h => exact ⟨Nat.le_refl 1, iff_of_true rfl h⟩
  · next h => exact ⟨Nat.zero_le 1, iff_of_false Nat.zero_ne_one h⟩

/-! ## The records of loads -/

theorem recordLoad_loads {other : String} (s : Session) (record : Option Nat) (h : name ≠ other) :
    (s.recordLoad other record).loads.lookup name = s.loads.lookup name :=
  Entries.lookup_put_of_ne s.loads record h

theorem place_loads (s : Session) (name : String) (boundary : Boundary) :
    (s.place name boundary).loads = (s.recordLoad name (some s.boundaries.length)).loads := by
  unfold place
  dsimp only
  split <;> simp [recordLoad]

/-- What a load leaves: no new boundary, or one of its own. -/
theorem load_cases {settings : LoadSettings} {request : LoadRequest}
    (h : s.load name settings request = .ok (t, a)) :
    ((∀ outcome, a ≠ .loaded outcome) ∧ t = s.recordLoad name none) ∨
      ∃ outcome, a = .loaded outcome ∧ t = s.place name outcome.boundary := by
  unfold load at h
  split at h
  · cases h
    exact Or.inl ⟨fun _ => nofun, rfl⟩
  · split at h
    · cases h
    · cases h
      exact Or.inl ⟨fun _ => nofun, rfl⟩
    · next outcome _ =>
      cases h
      exact Or.inr ⟨outcome, rfl, rfl⟩

theorem step_loads (h : s.step op = .ok (t, a))
    (hop : ∀ settings request, op ≠ .load name settings request) :
    t.loads.lookup name = s.loads.lookup name := by
  cases op with
  | load other settings request =>
    have hne : name ≠ other := fun he => hop settings request (he ▸ rfl)
    rcases load_cases h with ⟨-, rfl⟩ | ⟨outcome, -, rfl⟩
    · exact recordLoad_loads s none hne
    · rw [place_loads]
      exact recordLoad_loads s _ hne
  | instantiate of name =>
    simp only [step, instantiate] at h
    (repeat' split at h) <;> cases h <;> simp
  | execute of argument token cancelAfter =>
    simp only [step, execute] at h
    (repeat' split at h) <;> cases h <;> simp [replace]
  | wait of monitor released token cancelAfter =>
    simp only [step, wait] at h
    (repeat' split at h) <;> cases h <;> simp
  | _ =>
    simp only [step, same] at h
    (repeat' split at h) <;> cases h <;> simp

theorem run_loads (h : s.run ops = .ok t)
    (hops : ∀ settings request, SessionStep.load name settings request ∉ ops) :
    t.loads.lookup name = s.loads.lookup name := by
  induction ops generalizing s with
  | nil =>
    cases h
    rfl
  | cons op ops ih =>
    obtain ⟨u, a, hs, hr⟩ := run_cons_ok h
    have hne : ∀ settings request, op ≠ .load name settings request :=
      fun settings request he => hops settings request (he ▸ List.mem_cons_self)
    rw [ih hr fun settings request hm => hops settings request (List.mem_cons_of_mem op hm),
      step_loads hs hne]

/-! ## Once for each load -/

theorem Kept.run_length_le (hk : s.Kept []) (h : s.run ops = .ok t) :
    s.boundaries.length ≤ t.boundaries.length :=
  hk.run_keep (P := fun u => s.boundaries.length ≤ u.boundaries.length)
    (fun hu hm => Nat.le_trans hu hm.length_le)
    (fun u b hu => by rwa [update_length]) (Nat.le_refl _) h

theorem lookup_callbacks (s : Session) (name : String) :
    s.callbacks.lookup name =
      (s.loads.lookup name).map fun record => ((record.map s.calls).getD 0) := by
  unfold callbacks
  induction s.loads with
  | nil => rfl
  | cons entry entries ih =>
    obtain ⟨key, record⟩ := entry
    rw [List.map_cons, List.lookup_cons, List.lookup_cons]
    split
    · cases record <;> rfl
    · exact ih

/-- The callback of a load that made a boundary has been called once after every run, if the run unloads the
boundary or no context, module, entry point or instance of it is left, and not at all otherwise. The
callback of a load that was refused is never called. -/
theorem callback_called_once {fs : FileSystem} {fuel : Nat} {before after : List SessionStep}
    {settings : LoadSettings} {request : LoadRequest} (hs : (start fs fuel).run before = .ok s)
    (hl : s.step (.load name settings request) = .ok (t, a)) (hu : t.run after = .ok u) :
    (∀ outcome, a = .loaded outcome →
      u.calls s.boundaries.length ≤ 1 ∧
      (u.calls s.boundaries.length = 1 ↔ t.Unloads after s.boundaries.length ∨
        ¬ ∃ e ∈ u.handles, e.2.owns s.boundaries.length = true) ∧
      ((∀ settings request, SessionStep.load name settings request ∉ after) →
        u.callbacks.lookup name = some (u.calls s.boundaries.length))) ∧
    ∀ e, a = .refused e →
      t.boundaries = s.boundaries ∧ t.handles = s.handles ∧
      ((∀ settings request, SessionStep.load name settings request ∉ after) →
        u.callbacks.lookup name = some 0) := by
  have hks := (start_kept fs fuel).run hs
  have hkt := hks.step hl
  have hku := hkt.run hu
  rcases load_cases hl with ⟨hnone, rfl⟩ | ⟨outcome, rfl, rfl⟩
  · refine ⟨fun outcome he => absurd he (hnone outcome), fun e _ => ⟨rfl, rfl, fun hafter => ?_⟩⟩
    rw [lookup_callbacks, run_loads hu hafter, recordLoad, List.lookup_cons_self]
    rfl
  · have hb : s.boundaries.length < u.boundaries.length := by
      have hlen := hkt.run_length_le hu
      rw [place_length] at hlen
      exact hlen
    have hfresh : (s.place name outcome.boundary).lifecycle? s.boundaries.length ≠
        some .unloadRequested := by
      rw [ne_eq, hks.step_unloaded_iff hl, lifecycle?, List.getElem?_eq_none (Nat.le_refl _)]
      rintro (h | ⟨of, name, h, -⟩) <;> cases h
    obtain ⟨hle, hone⟩ := hku.calls_iff hb
    rw [hkt.run_unloaded_iff hu, or_iff_right hfresh] at hone
    constructor
    · intro _ _
      refine ⟨hle, hone, fun hafter => ?_⟩
      rw [lookup_callbacks, run_loads hu hafter, place_loads, recordLoad, List.lookup_cons_self]
      rfl
    · intro e he
      cases he

/-! ## A script that is left -/

/-- A script is taken out of a module, and its context is dropped. -/
def leaveScript : List SessionStep := [.compiled "c.module" "k", .drop "c"]

theorem called_when_module_dropped :
    ∃ t u v outcome e, (start bareFiles 1000).step
        (.load "c" (.level .debug) ⟨⟨"/base"⟩, "(component)", []⟩) = .ok (t, .loaded outcome) ∧
      t.run leaveScript = .ok u ∧ (∃ e ∈ u.handles, e.2.owns 0 = true) ∧
      t.run (leaveScript ++ [.drop "c.module"]) = .ok v ∧ v.callbacks.lookup "c" = some 1 ∧
      (start bareFiles 1000).step
        (.load "c" (.level .debug) ⟨⟨"/none"⟩, "(component)", []⟩) =
          .ok ((start bareFiles 1000).recordLoad "c" none, .refused e) ∧
      ((start bareFiles 1000).recordLoad "c" none).callbacks.lookup "c" = some 0 := by
  have hstart : (start bareFiles 1000).run [] = .ok (start bareFiles 1000) := rfl
  have ht : ∃ t outcome u v, (start bareFiles 1000).step
        (.load "c" (.level .debug) ⟨⟨"/base"⟩, "(component)", []⟩) = .ok (t, .loaded outcome) ∧
      t.run leaveScript = .ok u ∧ u.calls 0 = 0 ∧
      t.run (leaveScript ++ [.drop "c.module"]) = .ok v ∧ v.calls 0 = 1 :=
    ⟨_, _, _, _, rfl, rfl, rfl, rfl, rfl⟩
  obtain ⟨t, outcome, u, v, hl, hu, hnone, hv, hone⟩ := ht
  have hrefused : (start bareFiles 1000).step
      (.load "c" (.level .debug) ⟨⟨"/none"⟩, "(component)", []⟩) =
        .ok ((start bareFiles 1000).recordLoad "c" none,
          .refused (.baseDirectoryMissing ⟨"/none"⟩)) := rfl
  obtain ⟨-, hu', -⟩ := (callback_called_once hstart hl hu).1 outcome rfl
  obtain ⟨-, -, hv'⟩ := (callback_called_once hstart hl hv).1 outcome rfl
  have hstop : ((start bareFiles 1000).recordLoad "c" none).run [] =
      .ok ((start bareFiles 1000).recordLoad "c" none) := rfl
  obtain ⟨-, -, hr'⟩ := (callback_called_once hstart hrefused hstop).2 _ rfl
  refine ⟨t, u, v, outcome, _, hl, hu, ?_, hv, ?_, hrefused, hr' fun _ _ => nofun⟩
  · by_contra hno
    exact absurd (hnone.symm.trans (hu'.mpr (Or.inr hno))) Nat.zero_ne_one
  · exact (hv' (by simp [leaveScript])).trans (congrArg some hone)

end ComponentHost.Session
