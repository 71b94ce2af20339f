import ComponentHost.Proofs.Session.Ledger

/-! # Liveness

A boundary is live as long as a handle keeps it: a context, a module, an entry point, an instance or a
compiled script. Observers only watch. Handles that keep a boundary come only from others that do, so a
boundary that is no longer live stays so. -/
set_option autoImplicit false

namespace ComponentHost.Session

/-- Whether anything holds a boundary or its script, as its observers see it. -/
def isLive (s : Session) (b : Nat) : Bool := (s.boundaries[b]?).any Boundary.isLive

variable {s t : Session} {b : Nat}

/-! ## What keeps a boundary -/

theorem exists_keeps_iff (handles : List (String × Handle)) (b : Nat) :
    (∃ e ∈ handles, e.2.keeps b = true) ↔
      0 < (handles.map Prod.snd).countP (·.owns b) ∨
      0 < (handles.map Prod.snd).countP (·.holds b) := by
  rw [← exists_handle_iff, ← exists_handle_iff, ← exists_or]
  refine exists_congr fun e => ?_
  rw [← and_or_left, Handle.keeps_eq, Bool.or_eq_true]

theorem Kept.isLive_iff (hk : s.Kept []) (b : Nat) :
    s.isLive b = true ↔ ∃ e ∈ s.handles, e.2.keeps b = true := by
  rw [isLive]
  cases hb : s.boundaries[b]? with
  | none =>
    rw [Option.any_none]
    refine ⟨nofun, ?_⟩
    rintro ⟨e, he, hkeep⟩
    have hlt := hk.placed e he b (Handle.boundary?_of_keeps hkeep)
    exact absurd hlt (Nat.not_lt.mpr (List.getElem?_eq_none_iff.mp hb))
  | some boundary =>
    rw [Option.any_some, exists_keeps_iff]
    exact (hk.accounted.tallied b boundary hb).isLive_iff

/-! ## Where what keeps a boundary comes from -/

/-- A move gives a boundary that is there no handle that keeps it, unless it had one. -/
theorem Move.keeps (hm : Move s t) (hb : b < s.boundaries.length)
    (ht : ∃ e ∈ t.handles, e.2.keeps b = true) : ∃ e ∈ s.handles, e.2.keeps b = true := by
  obtain ⟨e, he, hkeep⟩ := ht
  cases hm with
  | idle _ hh => exact ⟨e, hh ▸ he, hkeep⟩
  | make name hof hmakes =>
    rcases mem_add he with he | rfl
    · exact ⟨e, he, hkeep⟩
    · exact ⟨_, mem_of_handle? hof, hmakes.keeps hkeep⟩
  | observe name _ =>
    rcases mem_add he with he | rfl
    · exact ⟨e, he, hkeep⟩
    · cases hkeep
  | token name token =>
    rcases mem_add he with he | rfl
    · exact ⟨e, he, hkeep⟩
    · cases hkeep
  | drop name =>
    exact ⟨e, mem_drop he, hkeep⟩
  | use => exact ⟨e, he, hkeep⟩
  | store store' hof =>
    rcases mem_replace he with he | rfl
    · exact ⟨e, he, hkeep⟩
    · exact ⟨_, mem_of_handle? hof, hkeep⟩
  | load name =>
    rcases mem_place he with he | hn
    · exact ⟨e, he, hkeep⟩
    · cases (Handle.boundary?_of_keeps hkeep).symm.trans hn
      exact absurd hb (Nat.lt_irrefl _)

/-! ## What observers see -/

theorem mem_liveness {name : String} {live : Bool} :
    (name, live) ∈ s.liveness ↔ ∃ b, (name, Handle.observer b) ∈ s.handles ∧ live = s.isLive b := by
  unfold liveness
  rw [List.mem_filterMap]
  constructor
  · rintro ⟨⟨name', h⟩, he, hl⟩
    cases h with
    | observer b =>
      cases hl
      exact ⟨b, he, rfl⟩
    | _ => cases hl
  · rintro ⟨b, he, rfl⟩
    exact ⟨_, he, rfl⟩

theorem Kept.mem_liveness_iff {name : String} {live : Bool} (hk : s.Kept [])
    (ho : s.handle? name = some (.observer b)) : (name, live) ∈ s.liveness ↔ live = s.isLive b := by
  rw [mem_liveness]
  constructor
  · rintro ⟨b', hm, hl⟩
    cases ho.symm.trans ((Entries.lookup_iff_mem hk.names).mpr hm)
    exact hl
  · exact fun hl => ⟨b, mem_of_handle? ho, hl⟩

theorem drop_observer {name : String} (ho : s.handle? name = some (.observer b)) :
    (s.drop name).boundaries = s.boundaries := by
  rw [drop, ho]
  exact List.modify_id b s.boundaries

/-! ## Liveness -/

/-- After every run a boundary is live just when a handle keeps it, every observer reports this, observers
come and go without a difference, and a boundary that is not live will never be. -/
theorem live_iff_kept {fs : FileSystem} {fuel : Nat} {ops : List SessionStep}
    (h : (start fs fuel).run ops = .ok s) :
    (∀ b, s.isLive b = true ↔ ∃ e ∈ s.handles, e.2.keeps b = true) ∧
    (∀ name b, s.handle? name = some (.observer b) →
      (∀ live, (name, live) ∈ s.liveness ↔ live = s.isLive b) ∧
      ∀ n, (s.drop name).isLive n = s.isLive n) ∧
    ∀ b < s.boundaries.length, s.isLive b = false →
      ∀ more t, s.run more = .ok t → t.isLive b = false := by
  have hk := (start_kept fs fuel).run h
  refine ⟨hk.isLive_iff, fun name b ho => ⟨fun live => hk.mem_liveness_iff ho, fun n => ?_⟩, ?_⟩
  · rw [isLive, drop_observer ho, isLive]
  · intro b hb hdead more t ht
    have hnone : ¬ ∃ e ∈ s.handles, e.2.keeps b = true := by
      rw [← hk.isLive_iff, hdead]
      exact Bool.false_ne_true
    have hkept := hk.run_keep
      (P := fun u => b < u.boundaries.length ∧ ¬ ∃ e ∈ u.handles, e.2.keeps b = true)
      (fun hu hm => ⟨Nat.lt_of_lt_of_le hu.1 hm.length_le, fun hv => hu.2 (hm.keeps hu.1 hv)⟩)
      (fun u _ hu => ⟨by simpa using hu.1, hu.2⟩) ⟨hb, hnone⟩ ht
    rw [← (hk.run ht).isLive_iff] at hkept
    exact Bool.eq_false_iff.mpr hkept.2

/-! ## A script that outlives everything else -/

/-- A script is taken out of a module, and its context and module are dropped. -/
def holdScript : List SessionStep :=
  [.load "c" (.level .debug) ⟨⟨"/base"⟩, "(component)", []⟩, .observe "c" "o",
    .compiled "c.module" "k", .drop "c", .drop "c.module"]

theorem live_until_script_dropped :
    ∃ s t, (start bareFiles 1000).run holdScript = .ok s ∧
      (start bareFiles 1000).run (holdScript ++ [.drop "k"]) = .ok t ∧
      (∃ e ∈ s.handles, e.2.keeps 0 = true) ∧ ("o", true) ∈ s.liveness ∧
      ("o", false) ∈ t.liveness ∧ ∀ more u, t.run more = .ok u → u.isLive 0 = false := by
  have hs : ∃ s, (start bareFiles 1000).run holdScript = .ok s ∧
      s.handle? "o" = some (.observer 0) ∧ s.isLive 0 = true := ⟨_, rfl, rfl, rfl⟩
  have ht : ∃ t, (start bareFiles 1000).run (holdScript ++ [.drop "k"]) = .ok t ∧
      t.handle? "o" = some (.observer 0) ∧ t.isLive 0 = false ∧ 0 < t.boundaries.length :=
    ⟨_, rfl, rfl, rfl, Nat.zero_lt_succ _⟩
  obtain ⟨s, hs, hos, hlive⟩ := hs
  obtain ⟨t, ht, hot, hdead, hb⟩ := ht
  obtain ⟨hkept, hseen, -⟩ := live_iff_kept hs
  obtain ⟨-, hunseen, hnever⟩ := live_iff_kept ht
  exact ⟨s, t, hs, ht, (hkept 0).mp hlive, ((hseen "o" 0 hos).1 true).mpr hlive.symm,
    ((hunseen "o" 0 hot).1 false).mpr hdead.symm, hnever 0 hb hdead⟩

end ComponentHost.Session
