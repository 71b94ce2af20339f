import ComponentHost.Proofs.Session.Moves
import Mathlib.Data.List.Nodup

/-! # The ledger of a session

Every boundary of a session counts just the handles that are there: `Accounted` compares the boundaries
with a list of handles, and `Kept` with the handles of the session and some that have no name yet. Every
step keeps this. -/
set_option autoImplicit false

namespace ComponentHost

namespace Handle

/-! ## Kinds of handles -/

/-- A handle that owns a boundary: a context, a module, an entry point or an instance. -/
def owns (b : Nat) : Handle → Bool
  | .context n | .module n | .entry n _ | .running n _ _ => n == b
  | .compiled _ | .observer _ | .token _ => false

def holds (b : Nat) : Handle → Bool
  | .module n | .compiled n => n == b
  | .context _ | .entry _ _ | .running _ _ _ | .observer _ | .token _ => false

/-- A handle that keeps a boundary live. -/
def keeps (b : Nat) : Handle → Bool
  | .context n | .module n | .compiled n | .entry n _ | .running n _ _ => n == b
  | .observer _ | .token _ => false

/-- A handle through which the loaded script is used. -/
def uses (b : Nat) : Handle → Bool
  | .module n | .entry n _ | .running n _ _ => n == b
  | .context _ | .compiled _ | .observer _ | .token _ => false

variable {h g : Handle} {b : Nat}

theorem owns_of_boundary? (hb : h.boundary? = some b) : h.owns b = h.share.owns := by
  cases h <;> cases hb <;> simp [owns, share, Share.context, Share.module, Share.compiled]

theorem holds_of_boundary? (hb : h.boundary? = some b) : h.holds b = h.share.holds := by
  cases h <;> cases hb <;> simp [holds, share, Share.context, Share.module, Share.compiled]

theorem owns_eq_false (hb : h.boundary? ≠ some b) : h.owns b = false := by
  cases h <;> simp_all [owns, boundary?]

theorem holds_eq_false (hb : h.boundary? ≠ some b) : h.holds b = false := by
  cases h <;> simp_all [holds, boundary?]

theorem boundary?_of_keeps (hk : h.keeps b = true) : h.boundary? = some b := by
  cases h <;> simp_all [keeps, boundary?]

theorem boundary?_of_uses (hu : h.uses b = true) : h.boundary? = some b := by
  cases h <;> simp_all [uses, boundary?]

theorem owns_of_uses (hu : h.uses b = true) : h.owns b = true := by
  cases h <;> simp_all [uses, owns]

theorem keeps_eq (h : Handle) (b : Nat) : h.keeps b = (h.owns b || h.holds b) := by
  cases h <;> simp [keeps, owns, holds]

/-! ## The handles of a new boundary -/

def initial (b : Nat) (hasModule : Bool) : List Handle :=
  .context b :: if hasModule then [.module b] else []

theorem initial_boundary? {hasModule : Bool} (hh : h ∈ initial b hasModule) :
    h.boundary? = some b := by
  cases hasModule <;> simp [initial] at hh
  · rw [hh]
    rfl
  · rcases hh with rfl | rfl <;> rfl

theorem countP_initial_self (b : Nat) (hasModule : Bool) :
    (initial b hasModule).countP (·.owns b) = (if hasModule then 2 else 1) ∧
      (initial b hasModule).countP (·.holds b) = if hasModule then 1 else 0 := by
  cases hasModule <;> simp [initial, owns, holds]

/-! ## What a handle gives rise to -/

theorem Makes.boundary? (hm : g.Makes h) : h.boundary? = g.boundary? := by
  cases hm <;> rfl

theorem Makes.owns (hm : g.Makes h) (ho : h.owns b = true) : g.owns b = true := by
  cases hm <;> simp_all [Handle.owns]

theorem Makes.uses (hm : g.Makes h) (hu : h.uses b = true) : g.uses b = true := by
  cases hm <;> simp_all [Handle.uses]

theorem Makes.keeps (hm : g.Makes h) (hk : h.keeps b = true) : g.keeps b = true := by
  cases hm <;> simp_all [Handle.keeps]

end Handle

/-! ## Boundaries and the handles that are there -/

/-- The boundaries count just these handles. -/
structure Accounted (boundaries : List Boundary) (held : List Handle) : Prop where
  placed : ∀ h ∈ held, ∀ b, h.boundary? = some b → b < boundaries.length
  tallied : ∀ (b : Nat) (boundary : Boundary), boundaries[b]? = some boundary →
    boundary.Tallied (held.countP (·.owns b)) (held.countP (·.holds b))
  loaded : ∀ (b : Nat) (boundary : Boundary), boundaries[b]? = some boundary →
    (∃ h ∈ held, h.uses b = true) → boundary.lifecycle ≠ .created

namespace Accounted

variable {boundaries : List Boundary} {held held' : List Handle}

theorem nil : Accounted [] [] where
  placed := nofun
  tallied := nofun
  loaded := nofun

theorem perm (hl : Accounted boundaries held) (hp : held.Perm held') : Accounted boundaries held' where
  placed := fun h hh => hl.placed h (hp.mem_iff.mpr hh)
  tallied := fun b boundary hb => by
    rw [← hp.countP_eq, ← hp.countP_eq]
    exact hl.tallied b boundary hb
  loaded := fun b boundary hb ⟨h, hh, hu⟩ => hl.loaded b boundary hb ⟨h, hp.mem_iff.mpr hh, hu⟩

/-- A change of one boundary, with the handles that go with it. -/
theorem modify (hl : Accounted boundaries held) {b : Nat} {f : Boundary → Boundary}
    (hplaced : ∀ h ∈ held', ∀ n, h.boundary? = some n → n < boundaries.length)
    (hother : ∀ n, b ≠ n → held'.countP (·.owns n) = held.countP (·.owns n) ∧
      held'.countP (·.holds n) = held.countP (·.holds n))
    (huses : ∀ n, (∃ h ∈ held', h.uses n = true) → ∃ h ∈ held, h.uses n = true)
    (hself : ∀ boundary, boundary.Tallied (held.countP (·.owns b)) (held.countP (·.holds b)) →
      (f boundary).Tallied (held'.countP (·.owns b)) (held'.countP (·.holds b)) ∧
      ((∃ h ∈ held', h.uses b = true) → boundary.lifecycle ≠ .created →
        (f boundary).lifecycle ≠ .created)) :
    Accounted (boundaries.modify b f) held' where
  placed := fun h hh n hn => by
    rw [List.length_modify]
    exact hplaced h hh n hn
  tallied := fun n boundary hn => by
    rw [List.getElem?_modify] at hn
    obtain ⟨old, ho, rfl⟩ := Option.map_eq_some_iff.mp hn
    by_cases hbn : b = n
    · subst hbn
      rw [if_pos rfl]
      exact (hself old (hl.tallied b old ho)).1
    · rw [if_neg hbn, (hother n hbn).1, (hother n hbn).2]
      exact hl.tallied n old ho
  loaded := fun n boundary hn hu => by
    rw [List.getElem?_modify] at hn
    obtain ⟨old, ho, rfl⟩ := Option.map_eq_some_iff.mp hn
    have hold := hl.loaded n old ho (huses n hu)
    by_cases hbn : b = n
    · subst hbn
      rw [if_pos rfl]
      exact (hself old (hl.tallied b old ho)).2 hu hold
    · rw [if_neg hbn]
      exact hold

theorem modify_same (hl : Accounted boundaries held) (b : Nat) {f : Boundary → Boundary}
    (htally : ∀ {boundary : Boundary} {n m : Nat}, boundary.Tallied n m → (f boundary).Tallied n m)
    (hcreated : ∀ boundary : Boundary, (f boundary).lifecycle = .created →
      boundary.lifecycle = .created) :
    Accounted (boundaries.modify b f) held :=
  hl.modify hl.placed (fun _ _ => ⟨rfl, rfl⟩) (fun _ hu => hu) fun boundary ht =>
    ⟨htally ht, fun _ hb hc => hb (hcreated boundary hc)⟩

/-! ## Taking a share and giving one back -/

theorem countP_cons_toNat (p : Handle → Bool) (h : Handle) (held : List Handle) :
    (h :: held).countP p = held.countP p + (p h).toNat := by
  rw [List.countP_cons]
  cases p h <;> rfl

/-- A new handle takes its share, if there is another that may give it. -/
theorem acquire (hl : Accounted boundaries held) {h : Handle} {b : Nat} (hb : h.boundary? = some b)
    (hp : b < boundaries.length) (howns : h.owns b = true → ∃ g ∈ held, g.owns b = true)
    (huses : h.uses b = true → ∃ g ∈ held, g.uses b = true) :
    Accounted (boundaries.modify b (·.acquire h.share)) (h :: held) := by
  have hother : ∀ n, b ≠ n → h.boundary? ≠ some n :=
    fun n hbn h' => hbn (Option.some.inj (hb.symm.trans h'))
  -- the new handle adds to the counts of its own boundary, and to no others
  refine hl.modify ?_ ?_ ?_ ?_
  · intro x hx n hn
    cases hx with
    | head =>
      cases hb.symm.trans hn
      exact hp
    | tail _ hx => exact hl.placed x hx n hn
  · intro n hbn
    simp [Handle.owns_eq_false (hother n hbn), Handle.holds_eq_false (hother n hbn)]
  · rintro n ⟨x, hx, hu⟩
    cases hx with
    | head =>
      cases hb.symm.trans (Handle.boundary?_of_uses hu)
      exact huses hu
    | tail _ hx => exact ⟨x, hx, hu⟩
  · intro boundary ht
    rw [countP_cons_toNat, countP_cons_toNat, Handle.owns_of_boundary? hb,
      Handle.holds_of_boundary? hb]
    refine ⟨ht.acquire h.share fun ho => ?_, fun _ hc => hc⟩
    rw [← Handle.owns_of_boundary? hb] at ho
    exact List.countP_pos_iff.mpr (howns ho)

theorem release {h : Handle} {b : Nat} (hl : Accounted boundaries (h :: held))
    (hb : h.boundary? = some b) : Accounted (boundaries.modify b (·.release h.share)) held := by
  refine hl.modify ?_ ?_ ?_ ?_
  · exact fun x hx => hl.placed x (List.mem_cons_of_mem h hx)
  · intro n hbn
    have hne : h.boundary? ≠ some n := fun h' => hbn (Option.some.inj (hb.symm.trans h'))
    simp [Handle.owns_eq_false hne, Handle.holds_eq_false hne]
  · rintro n ⟨x, hx, hu⟩
    exact ⟨x, List.mem_cons_of_mem h hx, hu⟩
  · intro boundary ht
    rw [countP_cons_toNat, countP_cons_toNat, Handle.owns_of_boundary? hb,
      Handle.holds_of_boundary? hb] at ht
    have hr := ht.release h.share (fun ho => by rw [ho]; exact Nat.succ_pos _)
      (fun hh => by rw [hh]; exact Nat.succ_pos _)
    rw [Nat.add_sub_cancel, Nat.add_sub_cancel] at hr
    refine ⟨hr, ?_⟩
    -- whoever uses the boundary owns it, so this was not the last owner
    rintro ⟨x, hx, hu⟩ hc
    have hpos : 0 < (boundary.release h.share).owners := by
      rw [hr.owners]
      exact List.countP_pos_iff.mpr ⟨x, hx, Handle.owns_of_uses hu⟩
    rwa [Boundary.lifecycle_of_content (Boundary.release_content_of_owners hpos)]

theorem cons_iff {h : Handle} (hb : h.boundary? = none) :
    Accounted boundaries (h :: held) ↔ Accounted boundaries held := by
  cases h <;> cases hb
  refine ⟨fun hl => ⟨?_, ?_, ?_⟩, fun hl => ⟨?_, ?_, ?_⟩⟩
  · exact fun x hx => hl.placed x (List.mem_cons_of_mem _ hx)
  · simpa [Handle.owns, Handle.holds] using hl.tallied
  · simpa [Handle.uses] using hl.loaded
  · simpa [Handle.boundary?] using hl.placed
  · simpa [Handle.owns, Handle.holds] using hl.tallied
  · simpa [Handle.uses] using hl.loaded

theorem restore {b : Nat} {entry : EntryPoint} {store : Store}
    (hl : Accounted boundaries (.running b entry store :: held)) (store' : Store) :
    Accounted boundaries (.running b entry store' :: held) where
  placed := by simpa [Handle.boundary?] using hl.placed
  tallied := by simpa [List.countP_cons, Handle.owns, Handle.holds] using hl.tallied
  loaded := by simpa [Handle.uses] using hl.loaded

/-! ## New boundaries -/

theorem countP_of_placed {n : Nat} (hn : ∀ h ∈ held, h.boundary? ≠ some n) :
    held.countP (·.owns n) = 0 ∧ held.countP (·.holds n) = 0 := by
  refine ⟨List.countP_eq_zero.mpr fun h hh => ?_, List.countP_eq_zero.mpr fun h hh => ?_⟩
  · rw [Handle.owns_eq_false (hn h hh)]
    exact Bool.false_ne_true
  · rw [Handle.holds_eq_false (hn h hh)]
    exact Bool.false_ne_true

theorem getElem?_concat_cases {b : Nat} {boundary last : Boundary}
    (hb : (boundaries ++ [last])[b]? = some boundary) :
    boundaries[b]? = some boundary ∧ b ≠ boundaries.length ∨
      b = boundaries.length ∧ boundary = last := by
  rw [List.getElem?_append] at hb
  split at hb
  · next hlt => exact Or.inl ⟨hb, Nat.ne_of_lt hlt⟩
  · next hge =>
    obtain ⟨hz, rfl⟩ := List.getElem?_eq_some_iff.mp hb
    rw [List.length_singleton] at hz
    exact Or.inr ⟨by omega, List.getElem_singleton _⟩

theorem append (hl : Accounted boundaries held) (id : Id) (baseDir : Path)
    (maxMemoryBytes : Option Nat) (loaded : Option (CompiledScript × Linked)) :
    Accounted (boundaries ++ [.make id baseDir maxMemoryBytes loaded])
      (Handle.initial boundaries.length loaded.isSome ++ held) := by
  have hold : ∀ h ∈ held, h.boundary? ≠ some boundaries.length :=
    fun h hh hb => Nat.lt_irrefl _ (hl.placed h hh _ hb)
  constructor
  case placed =>
    intro h hh b hb
    rw [List.length_append, List.length_singleton]
    rcases List.mem_append.mp hh with hh | hh
    · cases (Handle.initial_boundary? hh).symm.trans hb
      exact Nat.lt_succ_self _
    · exact Nat.lt_succ_of_lt (hl.placed h hh b hb)
  case tallied =>
    intro b boundary hb
    rw [List.countP_append, List.countP_append]
    rcases getElem?_concat_cases hb with ⟨hb, hne⟩ | ⟨rfl, rfl⟩
    · have hnew : ∀ h ∈ Handle.initial boundaries.length loaded.isSome, h.boundary? ≠ some b :=
        fun h hh h' => hne (Option.some.inj ((Handle.initial_boundary? hh).symm.trans h')).symm
      rw [(countP_of_placed hnew).1, (countP_of_placed hnew).2, Nat.zero_add, Nat.zero_add]
      exact hl.tallied b boundary hb
    · rw [(countP_of_placed hold).1, (countP_of_placed hold).2, (Handle.countP_initial_self _ _).1,
        (Handle.countP_initial_self _ _).2]
      exact Boundary.make_tallied id baseDir maxMemoryBytes loaded
  case loaded =>
    rintro b boundary hb ⟨h, hh, hu⟩
    have huses := Handle.boundary?_of_uses hu
    rcases getElem?_concat_cases hb with ⟨hb, hne⟩ | ⟨rfl, rfl⟩
    · rcases List.mem_append.mp hh with hh | hh
      · cases (Handle.initial_boundary? hh).symm.trans huses
        exact absurd rfl hne
      · exact hl.loaded b boundary hb ⟨h, hh, hu⟩
    · rcases List.mem_append.mp hh with hh | hh
      · cases loaded with
        | none =>
          -- only the context is there, and it does not use what is loaded
          rw [List.mem_singleton.mp hh] at hu
          exact Bool.noConfusion hu
        | some loaded => exact Lifecycle.noConfusion
      · exact absurd huses (hold h hh)

end Accounted

namespace Session

/-! ## The handles of a session -/

/-- The boundaries count the handles of the session, and some that are on the way to a name. -/
structure Kept (s : Session) (extra : List Handle) : Prop where
  names : (s.handles.map Prod.fst).Nodup
  accounted : Accounted s.boundaries (extra ++ s.handles.map Prod.snd)

theorem start_kept (fs : FileSystem) (fuel : Nat) : (start fs fuel).Kept [] where
  names := List.nodup_nil
  accounted := .nil

theorem replace_handles {s : Session} {name : String} {h : Handle}
    (hn : (s.handles.map Prod.fst).Nodup) (hh : s.handle? name = some h) (h' : Handle) :
    ∃ before after, s.handles = before ++ (name, h) :: after ∧
      (s.replace name h').handles = before ++ (name, h') :: after := by
  obtain ⟨before, after, he, hb, ha⟩ := Entries.split_of_lookup hn hh
  refine ⟨before, after, he, ?_⟩
  have hkeep : ∀ l : List (String × Handle), (∀ e ∈ l, e.1 ≠ name) →
      l.map (fun e => if e.1 == name then (name, h') else e) = l := by
    intro l hl
    refine (List.map_congr_left fun e hm => ?_).trans (List.map_id l)
    rw [if_neg (by simpa using hl e hm), id]
  rw [replace, he, List.map_append, List.map_cons, hkeep before hb, hkeep after ha]
  simp

variable {s t : Session} {extra : List Handle} {h : Handle}

theorem exists_handle_iff (p : Handle → Bool) (handles : List (String × Handle)) :
    (∃ e ∈ handles, p e.2 = true) ↔ 0 < (handles.map Prod.snd).countP p := by
  rw [List.countP_pos_iff]
  constructor
  · rintro ⟨e, he, hp⟩
    exact ⟨e.2, List.mem_map_of_mem he, hp⟩
  · rintro ⟨h, hm, hp⟩
    obtain ⟨e, he, rfl⟩ := List.mem_map.mp hm
    exact ⟨e, he, hp⟩

theorem release_accounted {held : List Handle} (hl : Accounted s.boundaries (h :: held)) :
    Accounted (s.release h).boundaries held := by
  unfold release
  split
  · next b hb => exact hl.release hb
  · next hb => exact (Accounted.cons_iff hb).mp hl

theorem Kept.release (hk : s.Kept (h :: extra)) : (s.release h).Kept extra := by
  refine ⟨?_, ?_⟩ <;> rw [release_handles]
  · exact hk.names
  · exact release_accounted hk.accounted

theorem Kept.drop (hk : s.Kept extra) (name : String) : (s.drop name).Kept extra := by
  refine ⟨?_, ?_⟩
  · rw [drop_handles]
    exact hk.names.sublist (List.filter_sublist.map Prod.fst)
  · rw [drop_handles]
    unfold Session.drop
    split
    · next hh =>
      rw [Entries.filter_of_lookup_none hh]
      exact hk.accounted
    · next h hh =>
      refine release_accounted (s := s.remove name) (hk.accounted.perm ?_)
      refine .trans (.append_left extra ((Entries.perm_of_lookup hk.names hh).map Prod.snd)) ?_
      exact List.perm_middle

theorem Kept.bind (hk : s.Kept (h :: extra)) (name : String) : (s.bind name h).Kept extra := by
  have hd := hk.drop name
  refine ⟨?_, ?_⟩
  · rw [bind_handles, List.map_cons, List.nodup_cons, ← drop_handles]
    refine ⟨?_, hd.names⟩
    rw [drop_handles]
    simp
  · rw [bind_handles, ← drop_handles, List.map_cons]
    exact hd.accounted.perm List.perm_middle.symm

/-- A new handle, if there is another that may give it its share. -/
theorem Kept.add (hk : s.Kept extra) (name : String)
    (hp : ∀ b, h.boundary? = some b → b < s.boundaries.length)
    (howns : ∀ b, h.owns b = true → ∃ e ∈ s.handles, e.2.owns b = true)
    (huses : ∀ b, h.uses b = true → ∃ e ∈ s.handles, e.2.uses b = true) : (s.add name h).Kept extra := by
  refine Kept.bind ⟨?_, ?_⟩ name
  · rw [acquire_handles]
    exact hk.names
  · rw [acquire_handles, List.cons_append]
    unfold acquire
    split
    · next b hb =>
      refine Accounted.acquire hk.accounted hb (hp b hb) (fun ho => ?_) (fun hu => ?_)
      · obtain ⟨e, he, ho⟩ := howns b ho
        exact ⟨e.2, List.mem_append_right extra (List.mem_map_of_mem he), ho⟩
      · obtain ⟨e, he, hu⟩ := huses b hu
        exact ⟨e.2, List.mem_append_right extra (List.mem_map_of_mem he), hu⟩
    · next hb => exact (Accounted.cons_iff hb).mpr hk.accounted

theorem Kept.update (hk : s.Kept extra) (b : Nat) {f : Boundary → Boundary}
    (htally : ∀ {boundary : Boundary} {n m : Nat}, boundary.Tallied n m → (f boundary).Tallied n m)
    (hcreated : ∀ boundary : Boundary, (f boundary).lifecycle = .created →
      boundary.lifecycle = .created) : (s.update b f).Kept extra :=
  ⟨hk.names, hk.accounted.modify_same b htally hcreated⟩

theorem Kept.requestUnload (hk : s.Kept extra) (b : Nat) :
    (s.update b Boundary.requestUnload).Kept extra := by
  refine hk.update b (fun ht => ht.requestUnload) fun boundary hc => ?_
  rw [Boundary.requestUnload_lifecycle] at hc
  cases hc

theorem Kept.use (hk : s.Kept extra) (b : Nat) (providers : Array Store) :
    (s.update b (·.withProviders providers)).Kept extra := by
  refine hk.update b (fun ht => ht.withProviders providers) fun boundary hc => ?_
  rwa [Boundary.withProviders_lifecycle] at hc

theorem Kept.place (hk : s.Kept extra) (name : String) (id : Id) (baseDir : Path)
    (maxMemoryBytes : Option Nat) (loaded : Option (CompiledScript × Linked)) :
    (s.place name (.make id baseDir maxMemoryBytes loaded)).Kept extra := by
  have hk' : (({ s with
      boundaries := s.boundaries ++ [.make id baseDir maxMemoryBytes loaded]
      nextId := s.nextId + 2 } : Session).recordLoad name (some s.boundaries.length)).Kept
      (Handle.initial s.boundaries.length loaded.isSome ++ extra) := by
    refine ⟨hk.names, ?_⟩
    rw [List.append_assoc]
    exact hk.accounted.append id baseDir maxMemoryBytes loaded
  have hb := hk'.bind name
  unfold Session.place
  cases loaded with
  | none => exact hb
  | some loaded => exact hb.bind (moduleName name)

theorem Kept.replace {of : String} {b : Nat} {entry : EntryPoint} {store : Store}
    (hk : s.Kept extra) (hof : s.handle? of = some (.running b entry store)) (store' : Store) :
    (s.replace of (.running b entry store')).Kept extra := by
  obtain ⟨before, after, he, hr⟩ := replace_handles hk.names hof (.running b entry store')
  have hn := hk.names
  have hl := hk.accounted
  refine ⟨?_, ?_⟩
  · rw [hr, List.map_append, List.map_cons]
    rwa [he, List.map_append, List.map_cons] at hn
  · rw [hr, List.map_append, List.map_cons, ← List.append_assoc]
    rw [he, List.map_append, List.map_cons, ← List.append_assoc] at hl
    have hl := hl.perm List.perm_middle
    refine Accounted.perm ?_ List.perm_middle.symm
    exact hl.restore store'

theorem Kept.move (hk : s.Kept extra) (hm : Move s t) : t.Kept extra := by
  cases hm with
  | idle hb hh => exact ⟨hh ▸ hk.names, hb ▸ hh ▸ hk.accounted⟩
  | @make of name h h' hof hm =>
    have hmem := mem_of_handle? hof
    refine hk.add name (fun b hb => ?_) (fun b ho => ⟨_, hmem, hm.owns ho⟩)
      fun b hu => ⟨_, hmem, hm.uses hu⟩
    exact hk.accounted.placed h (List.mem_append_right extra (List.mem_map_of_mem hmem)) b
      (hm.boundary? ▸ hb)
  | observe name hb =>
    exact hk.add name (fun b hb' => Option.some.inj hb' ▸ hb) (fun _ => nofun) fun _ => nofun
  | token name token => exact hk.add name (fun _ => nofun) (fun _ => nofun) fun _ => nofun
  | drop name => exact hk.drop name
  | use b providers => exact hk.use b providers
  | store store' hof => exact hk.replace hof store'
  | load name id baseDir maxMemoryBytes loaded =>
    exact hk.place name id baseDir maxMemoryBytes loaded

theorem Kept.placed (hk : s.Kept extra) :
    ∀ e ∈ s.handles, ∀ b, e.2.boundary? = some b → b < s.boundaries.length :=
  fun _ he => hk.accounted.placed _ (List.mem_append_right extra (List.mem_map_of_mem he))

/-- What moves and unloading keep is kept by every step of a session whose ledger is kept. -/
theorem Kept.step_keep {P : Session → Prop} (hmove : ∀ {s t : Session}, P s → Move s t → P t)
    (hunload : ∀ (s : Session) (b : Nat), P s → P (s.update b Boundary.requestUnload))
    {op : SessionStep} {a : SessionAnswer} (hk : s.Kept extra) (hs : P s) (h : s.step op = .ok (t, a)) :
    P t := by
  rcases step_moves hk.placed h with hm | ⟨of, name, b, -, -, hm⟩
  · exact hm.keep hmove hs
  · exact hm.keep hmove (hunload s b hs)

theorem Kept.step {op : SessionStep} {a : SessionAnswer} (hk : s.Kept extra)
    (h : s.step op = .ok (t, a)) : t.Kept extra :=
  hk.step_keep (P := fun s => s.Kept extra) Kept.move (fun _ b hk => hk.requestUnload b) hk h

theorem Kept.run {ops : List SessionStep} (hk : s.Kept extra) (h : s.run ops = .ok t) : t.Kept extra :=
  run_induction (P := fun s => s.Kept extra) Kept.step hk h

theorem Kept.run_keep {P : Session → Prop} (hmove : ∀ {s t : Session}, P s → Move s t → P t)
    (hunload : ∀ (s : Session) (b : Nat), P s → P (s.update b Boundary.requestUnload))
    {ops : List SessionStep} (hk : s.Kept extra) (hs : P s) (h : s.run ops = .ok t) : P t :=
  (run_induction (P := fun s => s.Kept extra ∧ P s)
    (fun hs h => ⟨hs.1.step h, hs.1.step_keep hmove hunload hs.2 h⟩) ⟨hk, hs⟩ h).2

end Session

end ComponentHost
