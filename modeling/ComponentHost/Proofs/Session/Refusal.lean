import ComponentHost.Proofs.Session.Unloading

/-! # Use after unloading

What is loaded in a boundary is used through its modules, entry points and instances. Such a use answers
that the boundary was unloaded just when the run so far has unloaded it. A use that is refused leaves the
whole session as it was and comes to its answer without a step of the machine. -/
set_option autoImplicit false

namespace ComponentHost

/-- The answers that say a boundary was unloaded. -/
inductive SessionAnswer.IsUnloaded : SessionAnswer → Prop where
  | resolved : IsUnloaded (.resolved (.error .unloaded))
  | instantiated : IsUnloaded (.instantiated (.error .unloaded))
  | executed : IsUnloaded (.executed (.error .unloaded))

/-- What a use answers when it is refused. -/
def SessionStep.refusal : SessionStep → SessionAnswer
  | .resolve _ _ _ => .resolved (.error .unloaded)
  | .instantiate _ _ => .instantiated (.error .unloaded)
  | .execute _ _ _ _ => .executed (.error .unloaded)
  | _ => .noSuchHandle

namespace Session

/-- A step that uses what is loaded in a boundary. -/
inductive Uses (s : Session) : SessionStep → Nat → Prop where
  | resolve {of : String} {b : Nat} (name : String) (contract : Contract)
      (hof : s.handle? of = some (.module b)) : Uses s (.resolve of name contract) b
  | instantiate {of : String} {b : Nat} {entry : EntryPoint} (name : String)
      (hof : s.handle? of = some (.entry b entry)) : Uses s (.instantiate of name) b
  | execute {of : String} {b : Nat} {entry : EntryPoint} {store : Store} (argument : String)
      (token : Option String) (cancelAfter : Option Nat)
      (hof : s.handle? of = some (.running b entry store)) :
      Uses s (.execute of argument token cancelAfter) b

variable {s t : Session} {op : SessionStep} {a : SessionAnswer} {b : Nat} {boundary : Boundary}

/-! ## What is used -/

theorem Uses.refusal_isUnloaded (hu : s.Uses op b) : op.refusal.IsUnloaded := by
  cases hu with
  | resolve => exact .resolved
  | instantiate => exact .instantiated
  | execute => exact .executed

theorem Uses.loaded (hk : s.Kept []) (hu : s.Uses op b) :
    ∃ boundary, s.boundaries[b]? = some boundary ∧ boundary.lifecycle ≠ .created := by
  have hheld : ∃ h ∈ s.handles.map Prod.snd, h.boundary? = some b ∧ h.uses b = true := by
    cases hu with
    | resolve _ _ hof | instantiate _ hof | execute _ _ _ hof =>
      exact ⟨_, List.mem_map_of_mem (mem_of_handle? hof), rfl, beq_self_eq_true b⟩
  obtain ⟨h, hm, hb, huses⟩ := hheld
  have hget := List.getElem?_eq_getElem (hk.accounted.placed h hm b hb)
  exact ⟨_, hget, hk.accounted.loaded b _ hget ⟨h, hm, huses⟩⟩

/-! ## What is refused -/

theorem update_self (hb : s.boundaries[b]? = some boundary) : (s.update b fun _ => boundary) = s := by
  have := update_of_getElem? id hb
  rw [id] at this
  rw [this, update, List.modify_id]

theorem replace_self {name : String} {h : Handle} (hk : s.Kept []) (hh : s.handle? name = some h) :
    s.replace name h = s := by
  obtain ⟨before, after, he, hr⟩ := replace_handles hk.names hh h
  have : { s with handles := (s.replace name h).handles } = s := by rw [hr, ← he]
  exact this

/-- A use of a boundary that is not active is refused, and that is all. -/
theorem Uses.refused (hk : s.Kept []) (hu : s.Uses op b) (hb : s.boundaries[b]? = some boundary)
    (hn : boundary.lifecycle ≠ .active) : s.step op = .ok (s, op.refusal) := by
  cases hu with
  | resolve name contract hof =>
    simp only [step, hof, hb, Boundary.resolve_of_not_active hn]
    rfl
  | instantiate name hof =>
    simp only [step, Session.instantiate, hof, hb, Boundary.instantiate_of_not_active hn]
    rw [update_self hb]
    rfl
  | execute argument token cancelAfter hof =>
    simp only [step, Session.execute, hof, hb, Boundary.execute_of_not_active hn]
    rw [update_self hb, replace_self hk hof]
    rfl

theorem uses_of_isUnloaded (h : s.step op = .ok (t, a)) (ha : a.IsUnloaded) :
    ∃ b boundary, s.Uses op b ∧ s.boundaries[b]? = some boundary ∧ boundary.lifecycle ≠ .active := by
  cases op with
  | resolve of name contract =>
    simp only [step] at h
    split at h
    · next b hof =>
      split at h
      · cases h
        cases ha
      · next boundary hb =>
        split at h
        · next e he =>
          cases h
          cases ha
          exact ⟨b, boundary, .resolve name contract hof, hb, Boundary.not_active_of_resolve he⟩
        · cases h
          cases ha
    · cases h
      cases ha
  | instantiate of name =>
    simp only [step, instantiate] at h
    split at h
    · next b entry hof =>
      split at h
      · cases h
        cases ha
      · next boundary hb =>
        split at h
        · cases h
        · next boundary' e he =>
          cases h
          cases ha
          exact ⟨b, boundary, .instantiate name hof, hb, Boundary.not_active_of_instantiate he⟩
        · cases h
          cases ha
    · cases h
      cases ha
  | execute of argument token cancelAfter =>
    simp only [step, execute] at h
    split at h
    · next b entry store hof =>
      split at h
      · cases h
        cases ha
      · next boundary hb =>
        split at h
        · cases h
        · next e he =>
          generalize hr : e.result = r at h
          cases h
          cases ha
          exact ⟨b, boundary, .execute argument token cancelAfter hof, hb,
            Boundary.not_active_of_execute he hr⟩
    · cases h
      cases ha
  | load name settings request =>
    simp only [step, load] at h
    split at h
    · cases h
      cases ha
    · split at h <;> cases h <;> cases ha
  | wait of monitor released token cancelAfter =>
    simp only [step, wait] at h
    split at h
    · split at h <;> cases h <;> cases ha
    · cases h
      cases ha
  | token name =>
    cases h
    cases ha
  | _ =>
    simp only [step] at h
    (repeat' split at h) <;> cases h <;> cases ha

theorem Uses.unique {b' : Nat} (hu : s.Uses op b) (hu' : s.Uses op b') : b = b' := by
  cases hu with
  | resolve _ _ hof | instantiate _ hof | execute _ _ _ hof =>
    cases hu' with
    | _ =>
      next hof' =>
        cases hof.symm.trans hof'
        rfl

theorem Uses.withFuel (hu : s.Uses op b) (n : Nat) : { s with fuel := n }.Uses op b := by
  cases hu with
  | resolve name contract hof => exact .resolve name contract hof
  | instantiate name hof => exact .instantiate name hof
  | execute argument token cancelAfter hof => exact .execute argument token cancelAfter hof

/-- What was loaded is refused just when it was unloaded. -/
theorem Uses.refused_iff (hk : s.Kept []) (hu : s.Uses op b) :
    (∃ t a, s.step op = .ok (t, a) ∧ a.IsUnloaded) ↔ s.lifecycle? b = some .unloadRequested := by
  obtain ⟨boundary, hb, hloaded⟩ := hu.loaded hk
  rw [lifecycle?, hb, Option.map_some, Option.some.injEq]
  constructor
  · rintro ⟨t, a, hs, ha⟩
    obtain ⟨b', boundary', hu', hb', hn⟩ := uses_of_isUnloaded hs ha
    cases hu.unique hu'
    cases hb.symm.trans hb'
    cases hl : boundary.lifecycle with
    | created => exact absurd hl hloaded
    | active => exact absurd hl hn
    | unloadRequested => rfl
  · intro hl
    have hn : boundary.lifecycle ≠ .active := by
      rw [hl]
      exact Lifecycle.noConfusion
    exact ⟨s, op.refusal, hu.refused hk hb hn, hu.refusal_isUnloaded⟩

/-! ## Use after unloading -/

/-- After every run a use answers that its boundary was unloaded just when the run has unloaded it. What is
refused so changes nothing, even when no step of the machine may be taken, and no boundary gets active
again. -/
theorem refused_iff_unloads {fs : FileSystem} {fuel : Nat} {ops : List SessionStep}
    (h : (start fs fuel).run ops = .ok s) :
    (∀ op b, s.Uses op b →
      ((∃ t a, s.step op = .ok (t, a) ∧ a.IsUnloaded) ↔ (start fs fuel).Unloads ops b)) ∧
    (∀ op t a, s.step op = .ok (t, a) → a.IsUnloaded →
      t = s ∧ ∀ n, { s with fuel := n }.step op = .ok ({ s with fuel := n }, a)) ∧
    ∀ b < s.boundaries.length, s.lifecycle? b ≠ some .active →
      ∀ more t, s.run more = .ok t → t.lifecycle? b ≠ some .active := by
  have hk := (start_kept fs fuel).run h
  refine ⟨fun op b hu => ?_, fun op t a hs ha => ?_, fun b hb hn more t ht => ?_⟩
  · rw [hu.refused_iff hk, (start_kept fs fuel).run_unloaded_iff h]
    exact or_iff_right nofun
  · obtain ⟨b, boundary, hu, hb, hn⟩ := uses_of_isUnloaded hs ha
    cases (hu.refused hk hb hn).symm.trans hs
    refine ⟨rfl, fun n => ?_⟩
    exact (hu.withFuel n).refused ⟨hk.names, hk.accounted⟩ hb hn
  · exact hk.run_not_active hb hn ht

/-! ## One boundary unloaded, another let go -/

/-- Of two boundaries one is unloaded, and the other loses its context. -/
def unloadOne : List SessionStep :=
  [.load "a" (.level .debug) ⟨⟨"/base"⟩, "(component)", []⟩,
    .load "b" (.level .debug) ⟨⟨"/base"⟩, "(component)", []⟩,
    .clone "a.module" "m", .unload "a" "o", .drop "b"]

theorem refused_after_unloadOne :
    ∃ s, (start bareFiles 1000).run unloadOne = .ok s ∧
      (∃ t a, s.step (.resolve "m" "e" .standard) = .ok (t, a) ∧ a.IsUnloaded) ∧
      ¬ (start bareFiles 1000).Unloads unloadOne 1 := by
  have hs : ∃ s, (start bareFiles 1000).run unloadOne = .ok s ∧
      s.handle? "m" = some (.module 0) ∧ s.handle? "b.module" = some (.module 1) ∧
      ∃ t, s.step (.resolve "b.module" "e" .standard) =
        .ok (t, .resolved (.error (.noImplementation "execute"))) := ⟨_, rfl, rfl, rfl, _, rfl⟩
  obtain ⟨s, hs, hm, hb, t, hstep⟩ := hs
  obtain ⟨hiff, -, -⟩ := refused_iff_unloads hs
  have hunloads : (start bareFiles 1000).Unloads unloadOne 0 :=
    ⟨unloadOne.take 3, "a", "o", [.drop "b"], _, rfl, rfl, rfl⟩
  refine ⟨s, hs, (hiff _ 0 (.resolve "e" .standard hm)).mpr hunloads, fun hu => ?_⟩
  obtain ⟨t', a, hstep', ha⟩ := (hiff _ 1 (.resolve "e" .standard hb)).mpr hu
  cases hstep.symm.trans hstep'
  cases ha

end Session

end ComponentHost
