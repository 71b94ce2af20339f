import ComponentHost.Proofs.Boundary.Aging
import ComponentHost.Proofs.Session.Ledger

/-! # Laws that sessions keep to

A law says what is to hold of a boundary, of the entry points that it hands out, and of the instances that
are made through these. When using a boundary keeps to a law, so does every session: whatever is named in it
obeys the law, after any steps. -/
set_option autoImplicit false

namespace ComponentHost

namespace Boundary

/-- What becomes of a boundary when it is held, let go and unloaded: it stays as it was loaded, or gets out
of use. -/
structure Fades (b b' : Boundary) : Prop where
  maxMemoryBytes : b'.maxMemoryBytes = b.maxMemoryBytes
  content : b'.content = b.content ∨ b'.lifecycle ≠ .active

variable {b b' b'' : Boundary}

theorem Fades.refl (b : Boundary) : b.Fades b := ⟨rfl, .inl rfl⟩

theorem Fades.trans (h : b.Fades b') (h' : b'.Fades b'') : b.Fades b'' where
  maxMemoryBytes := h'.maxMemoryBytes.trans h.maxMemoryBytes
  content := by
    rcases h'.content with he | hn
    · rw [he]
      refine h.content.imp_right fun hn => ?_
      rwa [lifecycle, he]
    · exact .inr hn

theorem fire_maxMemoryBytes (b : Boundary) : b.fire.maxMemoryBytes = b.maxMemoryBytes := by
  unfold fire
  split <;> rfl

theorem empty_maxMemoryBytes (b : Boundary) (content : Content) :
    (b.empty content).maxMemoryBytes = b.maxMemoryBytes := by
  unfold empty
  split <;> rfl

theorem acquire_fades (b : Boundary) (share : Share) : b.Fades (b.acquire share) := ⟨rfl, .inl rfl⟩

theorem release_fades (b : Boundary) (share : Share) : b.Fades (b.release share) where
  maxMemoryBytes := by
    unfold release
    dsimp only
    split
    · rw [fire_maxMemoryBytes, empty_maxMemoryBytes]
    · rfl
  content := by
    rcases release_content b share with h | h
    · exact .inl h
    · refine .inr ?_
      rw [lifecycle, h]
      exact abandoned_lifecycle b.content

theorem requestUnload_fades (b : Boundary) : b.Fades b.requestUnload where
  maxMemoryBytes := by rw [requestUnload, fire_maxMemoryBytes, empty_maxMemoryBytes]
  content := by
    refine .inr ?_
    rw [requestUnload_lifecycle]
    exact Lifecycle.noConfusion

/-- Whatever is loaded in a boundary that has faded was loaded in it before. -/
theorem Fades.active (h : b.Fades b') {linked : Linked} (hc : b'.content = .active linked) :
    b.content = .active linked := by
  rcases h.content with he | hn
  · exact he ▸ hc
  · exact absurd hc (lifecycle_ne_active_iff.mp hn linked)

end Boundary

/-! ## Laws -/

structure Law where
  boundary : Boundary → Prop
  /-- What is to hold of the entry points of a boundary. -/
  entry : Boundary → EntryPoint → Prop
  /-- What is to hold of the instances that were made through an entry point of a boundary. -/
  running : Boundary → EntryPoint → Store → Prop

namespace Law

variable {L : Law} {b b' : Boundary}

/-- Whatever obeyed a law before a boundary changed obeys it after that. -/
structure Keeps (L : Law) (b b' : Boundary) : Prop where
  boundary : L.boundary b → L.boundary b'
  entry : ∀ entry, L.entry b entry → L.entry b' entry
  running : ∀ entry store, L.running b entry store → L.running b' entry store

theorem Keeps.refl (L : Law) (b : Boundary) : L.Keeps b b := ⟨id, fun _ => id, fun _ _ => id⟩

/-- Loading a boundary and using it keep to a law. -/
structure Stable (L : Law) : Prop where
  fades : ∀ {b b' : Boundary}, b.Fades b' → L.Keeps b b'
  load : ∀ {fs fuel settings id scriptId request outcome},
    Boundary.load fs fuel settings id scriptId request = .ok (.ok outcome) → L.boundary outcome.boundary
  resolve : ∀ {b : Boundary} {contract entry}, L.boundary b → b.resolve contract = .ok entry →
    L.entry b entry
  instantiate : ∀ {b b' : Boundary} {fuel entry r}, L.boundary b → L.entry b entry →
    b.instantiate fuel = .ok (b', r) → L.Keeps b b' ∧ ∀ store, r = .ok store → L.running b' entry store
  execute : ∀ {b : Boundary} {fuel store entry argument token signals e}, L.boundary b →
    L.running b entry store → b.execute fuel store entry argument token signals = .ok e →
    L.Keeps b e.boundary ∧ L.running e.boundary entry e.store

/-- What a law asks of a handle to a boundary. -/
def handle (L : Law) (b : Boundary) : Handle → Prop
  | .entry _ entry => L.entry b entry
  | .running _ entry store => L.running b entry store
  | .context _ | .module _ | .compiled _ | .observer _ | .token _ => True

theorem Keeps.handle (h : L.Keeps b b') {g : Handle} (hg : L.handle b g) : L.handle b' g := by
  cases g with
  | entry _ entry => exact h.entry entry hg
  | running _ entry store => exact h.running entry store hg
  | context | module | compiled | observer | token => trivial

end Law

namespace Session

variable {L : Law} {s t u : Session} {a : SessionAnswer} {h : Handle}

/-! ## Boundaries that fade -/

/-- The boundaries of a session stay as they are, but that they are held, let go and unloaded. -/
def Fades (s t : Session) : Prop :=
  ∀ (n : Nat) (boundary' : Boundary), t.boundaries[n]? = some boundary' →
    ∃ boundary, s.boundaries[n]? = some boundary ∧ boundary.Fades boundary'

namespace Fades

theorem of_eq (h : t.boundaries = s.boundaries) : s.Fades t :=
  fun _ boundary' hn => ⟨boundary', h ▸ hn, .refl boundary'⟩

theorem trans (h : s.Fades t) (h' : t.Fades u) : s.Fades u := by
  intro n boundary'' hn''
  obtain ⟨boundary', hn', hf'⟩ := h' n boundary'' hn''
  obtain ⟨boundary, hn, hf⟩ := h n boundary' hn'
  exact ⟨boundary, hn, hf.trans hf'⟩

theorem update (s : Session) (b : Nat) {f : Boundary → Boundary}
    (hf : ∀ boundary : Boundary, boundary.Fades (f boundary)) : s.Fades (s.update b f) := by
  intro n boundary' hn
  rw [Session.update, List.getElem?_modify] at hn
  obtain ⟨boundary, hb, rfl⟩ := Option.map_eq_some_iff.mp hn
  refine ⟨boundary, hb, ?_⟩
  split
  · exact hf boundary
  · exact .refl boundary

theorem acquire (s : Session) (h : Handle) : s.Fades (s.acquire h) := by
  unfold Session.acquire
  split
  · exact update s _ fun boundary => boundary.acquire_fades h.share
  · exact of_eq rfl

theorem release (s : Session) (h : Handle) : s.Fades (s.release h) := by
  unfold Session.release
  split
  · exact update s _ fun boundary => boundary.release_fades h.share
  · exact of_eq rfl

theorem drop (s : Session) (name : String) : s.Fades (s.drop name) := by
  unfold Session.drop
  split
  · exact of_eq rfl
  · next h _ =>
    have hr : s.Fades (s.remove name) := of_eq rfl
    exact hr.trans (release _ h)

theorem bind (s : Session) (name : String) (h : Handle) : s.Fades (s.bind name h) :=
  (drop s name).trans (of_eq rfl)

theorem add (s : Session) (name : String) (h : Handle) : s.Fades (s.add name h) :=
  (acquire s h).trans (bind _ name h)

theorem fireToken (s : Session) (token : Token) : s.Fades (s.fireToken token) := by
  unfold Session.fireToken
  split <;> exact of_eq rfl

theorem rung (s : Session) (token : Option Token) (cancelAfter : Option Nat) (elapsed : Nat) :
    s.Fades (s.rung token cancelAfter elapsed) := by
  unfold Session.rung
  split
  · split
    · exact fireToken s _
    · exact of_eq rfl
  · exact of_eq rfl

theorem wait {of : String} {monitor : Monitor} {released : Option (String × Nat)} {token : Option String}
    {cancelAfter : Option Nat} (h : s.wait of monitor released token cancelAfter = .ok (t, a)) : s.Fades t := by
  unfold Session.wait at h
  split at h
  · split at h
    · cases h
      exact of_eq rfl
    · cases h
      cases released with
      | none => exact rung s _ cancelAfter _
      | some taken => exact (drop s taken.1).trans (rung _ _ cancelAfter _)
  · cases h
    exact of_eq rfl

end Fades

/-! ## Boundaries that go over to others -/

/-- The boundaries of a session go over to others that keep to a law. -/
def Keeps (L : Law) (s t : Session) : Prop :=
  ∀ (n : Nat) (boundary' : Boundary), t.boundaries[n]? = some boundary' →
    ∃ boundary, s.boundaries[n]? = some boundary ∧ L.Keeps boundary boundary'

namespace Keeps

theorem of_eq (h : t.boundaries = s.boundaries) : s.Keeps L t :=
  fun _ boundary' hn => ⟨boundary', h ▸ hn, .refl L boundary'⟩

theorem update (s : Session) (b : Nat) {f : Boundary → Boundary}
    (hf : ∀ boundary, s.boundaries[b]? = some boundary → L.Keeps boundary (f boundary)) :
    s.Keeps L (s.update b f) := by
  intro n boundary' hn
  rw [Session.update, List.getElem?_modify] at hn
  obtain ⟨boundary, hb, rfl⟩ := Option.map_eq_some_iff.mp hn
  refine ⟨boundary, hb, ?_⟩
  split
  · next he =>
    subst he
    exact hf boundary hb
  · exact .refl L boundary

end Keeps

theorem Fades.keeps (hf : s.Fades t) (hL : L.Stable) : s.Keeps L t := by
  intro n boundary' hn'
  obtain ⟨boundary, hn, hb⟩ := hf n boundary' hn'
  exact ⟨boundary, hn, hL.fades hb⟩

end Session

namespace Session

variable {L : Law} {s t : Session} {a : SessionAnswer} {h : Handle}

/-- A handle of a session obeys a law, with its boundary as it is now. -/
def Obeys (s : Session) (L : Law) (h : Handle) : Prop :=
  ∀ b boundary, h.boundary? = some b → s.boundaries[b]? = some boundary → L.handle boundary h

/-- All boundaries of a session and all handles to them obey a law. -/
structure Upholds (s : Session) (L : Law) : Prop where
  boundaries : ∀ (b : Nat) (boundary : Boundary), s.boundaries[b]? = some boundary → L.boundary boundary
  handles : ∀ e ∈ s.handles, s.Obeys L e.2

theorem start_upholds (L : Law) (fs : FileSystem) (fuel : Nat) : (start fs fuel).Upholds L := ⟨nofun, nofun⟩

theorem Obeys.keep (hh : s.Obeys L h) (hk : s.Keeps L t) : t.Obeys L h := by
  intro b boundary' hb hn
  obtain ⟨boundary, hn, hkeeps⟩ := hk b boundary' hn
  exact hkeeps.handle (hh b boundary hb hn)

/-- What a law asks nothing of obeys it. -/
theorem obeys_of_handle (hh : ∀ boundary, L.handle boundary h) : s.Obeys L h :=
  fun _ boundary _ _ => hh boundary

namespace Upholds

theorem keep (hs : s.Upholds L) (hk : s.Keeps L t)
    (hh : ∀ e ∈ t.handles, e ∈ s.handles ∨ t.Obeys L e.2) : t.Upholds L where
  boundaries := fun b boundary' hb' => by
    obtain ⟨boundary, hb, hkeeps⟩ := hk b boundary' hb'
    exact hkeeps.boundary (hs.boundaries b boundary hb)
  handles := fun e he => by
    rcases hh e he with he | hf
    · exact (hs.handles e he).keep hk
    · exact hf

theorem of_eq (hs : s.Upholds L) (hb : t.boundaries = s.boundaries) (hh : t.handles = s.handles) :
    t.Upholds L :=
  hs.keep (.of_eq hb) fun _ he => Or.inl (hh ▸ he)

theorem update (hs : s.Upholds L) {b : Nat} {f : Boundary → Boundary}
    (hf : ∀ boundary, s.boundaries[b]? = some boundary → L.Keeps boundary (f boundary)) :
    (s.update b f).Upholds L :=
  hs.keep (.update s b hf) fun _ he => Or.inl he

theorem replace (hs : s.Upholds L) (name : String) (hh : s.Obeys L h) : (s.replace name h).Upholds L := by
  refine hs.keep (.of_eq rfl) fun e he => ?_
  rcases mem_replace he with he | rfl
  · exact Or.inl he
  · exact Or.inr hh

theorem fireToken (hs : s.Upholds L) (token : Token) : (s.fireToken token).Upholds L := by
  unfold Session.fireToken
  split
  · exact hs
  · exact hs.of_eq rfl rfl

theorem rung (hs : s.Upholds L) (token : Option Token) (cancelAfter : Option Nat) (elapsed : Nat) :
    (s.rung token cancelAfter elapsed).Upholds L := by
  unfold Session.rung
  split
  · split
    · exact hs.fireToken _
    · exact hs
  · exact hs

section Stable
variable (hL : L.Stable)
include hL

theorem drop (hs : s.Upholds L) (name : String) : (s.drop name).Upholds L :=
  hs.keep ((Fades.drop s name).keeps hL) fun _ he => Or.inl (mem_drop he)

theorem bind (hs : s.Upholds L) (name : String) (hh : s.Obeys L h) : (s.bind name h).Upholds L := by
  have hk : s.Keeps L (s.bind name h) := (Fades.bind s name h).keeps hL
  refine hs.keep hk fun e he => ?_
  rcases mem_bind he with he | rfl
  · exact Or.inl he
  · exact Or.inr (hh.keep hk)

theorem add (hs : s.Upholds L) (name : String) (hh : s.Obeys L h) : (s.add name h).Upholds L := by
  have hk : s.Keeps L (s.add name h) := (Fades.add s name h).keeps hL
  refine hs.keep hk fun e he => ?_
  rcases mem_add he with he | rfl
  · exact Or.inl he
  · exact Or.inr (hh.keep hk)

theorem place (hs : s.Upholds L) (hk : s.Kept []) (name : String) {boundary : Boundary}
    (hb : L.boundary boundary) : (s.place name boundary).Upholds L := by
  have happend : (({ s with
      boundaries := s.boundaries ++ [boundary]
      nextId := s.nextId + 2 } : Session).recordLoad name (some s.boundaries.length)).Upholds L := by
    refine ⟨fun n boundary' hn => ?_, fun e he n boundary' hr hn => ?_⟩
    · rcases Accounted.getElem?_concat_cases hn with ⟨hn, -⟩ | ⟨-, rfl⟩
      · exact hs.boundaries n boundary' hn
      · exact hb
    · have hlt : n < s.boundaries.length := hk.placed e he n hr
      refine hs.handles e he n boundary' hr ?_
      rwa [← List.getElem?_append_left hlt]
  have hcontext := happend.bind hL name (h := .context s.boundaries.length)
    (obeys_of_handle fun _ => trivial)
  unfold Session.place
  dsimp only
  split
  · exact hcontext.bind hL (moduleName name) (obeys_of_handle fun _ => trivial)
  · exact hcontext

/-! ## Steps -/

theorem load (hs : s.Upholds L) (hk : s.Kept []) {name : String} {settings : LoadSettings}
    {request : LoadRequest} (h : s.load name settings request = .ok (t, a)) : t.Upholds L := by
  unfold Session.load at h
  split at h
  · cases h
    exact hs.of_eq rfl rfl
  · split at h
    · cases h
    · cases h
      exact hs.of_eq rfl rfl
    · next outcome hl =>
      cases h
      exact hs.place hL hk name (hL.load hl)

theorem resolve (hs : s.Upholds L) {of name : String} {contract : Contract}
    (h : s.step (.resolve of name contract) = .ok (t, a)) : t.Upholds L := by
  simp only [Session.step] at h
  split at h
  · next b hof =>
    split at h
    · cases h
      exact hs
    · next boundary hb =>
      split at h
      · cases h
        exact hs
      · next entry he =>
        cases h
        refine hs.add hL name fun b' old hb' ho => ?_
        cases hb'
        cases hb.symm.trans ho
        exact hL.resolve (hs.boundaries b boundary hb) he
  · cases h
    exact hs

theorem instantiate (hs : s.Upholds L) {of name : String} (h : s.instantiate of name = .ok (t, a)) :
    t.Upholds L := by
  unfold Session.instantiate at h
  split at h
  · next b entry hof =>
    split at h
    · cases h
      exact hs
    · next boundary hb =>
      have hentry : L.entry boundary entry := hs.handles _ (mem_of_handle? hof) b boundary rfl hb
      have hmade := fun {boundary' : Boundary} {r : Except EntryPointError Store}
          (hi : boundary.instantiate s.fuel = .ok (boundary', r)) =>
        hL.instantiate (hs.boundaries b boundary hb) hentry hi
      have hkeeps : ∀ {boundary' : Boundary} {r : Except EntryPointError Store},
          boundary.instantiate s.fuel = .ok (boundary', r) →
          ∀ old, s.boundaries[b]? = some old → L.Keeps old boundary' := by
        intro boundary' r hi old ho
        cases hb.symm.trans ho
        exact (hmade hi).1
      split at h
      · cases h
      · next boundary' e hi =>
        cases h
        exact hs.update (hkeeps hi)
      · next boundary' store hi =>
        cases h
        refine (hs.update (hkeeps hi)).add hL name fun b' now hb' hn => ?_
        cases hb'
        rw [Session.update, List.getElem?_modify_eq, hb] at hn
        cases hn
        exact (hmade hi).2 store rfl
  · cases h
    exact hs

theorem execute (hs : s.Upholds L) {of argument : String} {token : Option String}
    {cancelAfter : Option Nat} (h : s.execute of argument token cancelAfter = .ok (t, a)) :
    t.Upholds L := by
  unfold Session.execute at h
  split at h
  · next b entry store hof =>
    split at h
    · cases h
      exact hs
    · next boundary hb =>
      dsimp only at h
      split at h
      · cases h
      · next e he =>
        cases h
        have hrunning : L.running boundary entry store := hs.handles _ (mem_of_handle? hof) b boundary rfl hb
        obtain ⟨hkeeps, hleft⟩ := hL.execute (hs.boundaries b boundary hb) hrunning he
        have hkeeps : ∀ old, s.boundaries[b]? = some old → L.Keeps old e.boundary := by
          intro old ho
          cases hb.symm.trans ho
          exact hkeeps
        have hreplaced := (hs.update hkeeps).replace of (h := .running b entry e.store) fun b' now hb' hn => by
          cases hb'
          rw [Session.update, List.getElem?_modify_eq, hb] at hn
          cases hn
          exact hleft
        exact hreplaced.of_eq rfl rfl
  · cases h
    exact hs

theorem wait (hs : s.Upholds L) {of : String} {monitor : Monitor} {released : Option (String × Nat)}
    {token : Option String} {cancelAfter : Option Nat}
    (h : s.wait of monitor released token cancelAfter = .ok (t, a)) : t.Upholds L := by
  unfold Session.wait at h
  split at h
  · split at h
    · cases h
      exact hs
    · cases h
      cases released with
      | none => exact hs.rung _ cancelAfter _
      | some x => exact (hs.drop hL x.1).rung _ cancelAfter _
  · cases h
    exact hs

/-- Every step keeps to a law. -/
theorem step (hs : s.Upholds L) (hk : s.Kept []) {op : SessionStep} (h : s.step op = .ok (t, a)) :
    t.Upholds L := by
  cases op with
  | load name settings request => exact hs.load hL hk h
  | resolve of name contract => exact hs.resolve hL h
  | instantiate of name => exact hs.instantiate hL h
  | execute of argument token cancelAfter => exact hs.execute hL h
  | wait of monitor released token cancelAfter => exact hs.wait hL h
  | token name =>
    cases h
    have hnext : { s with nextToken := s.nextToken + 1 }.Upholds L := hs.of_eq rfl rfl
    exact hnext.add hL name (obeys_of_handle fun _ => trivial)
  | cancel of =>
    simp only [Session.step] at h
    split at h
    · cases h
      exact hs.fireToken _
    · cases h
      exact hs
  | unload of name =>
    simp only [Session.step] at h
    split at h
    · next b _ =>
      have hunload := hs.update (b := b) fun old _ => hL.fades old.requestUnload_fades
      have hu := (hunload.drop hL of).add hL name (h := .observer b) (obeys_of_handle fun _ => trivial)
      split at h <;> (cases h; exact hu)
    · cases h
      exact hs
  | clone of name =>
    simp only [Session.step] at h
    split at h
    · next h' hof =>
      split at h
      · cases h
        exact hs.add hL name (hs.handles _ (mem_of_handle? hof))
      · cases h
        exact hs
    · cases h
      exact hs
  | drop of =>
    simp only [Session.step] at h
    split at h
    · cases h
      exact hs.drop hL of
    · cases h
      exact hs
  | observe | compiled | ids | describe =>
    simp only [Session.step] at h
    (repeat' split at h) <;> cases h <;> first
      | exact hs
      | exact hs.add hL _ (obeys_of_handle fun _ => trivial)

theorem run {ops : List SessionStep} (hs : s.Upholds L) (hk : s.Kept []) (h : s.run ops = .ok t) :
    t.Upholds L :=
  (run_induction (P := fun s => s.Kept [] ∧ s.Upholds L)
    (fun hs h => ⟨hs.1.step h, hs.2.step hL hs.1 h⟩) ⟨hk, hs⟩ h).2

end Stable

end Upholds

/-- Whatever a stable law asks holds after every run. -/
theorem upholds_of_run (hL : L.Stable) {fs : FileSystem} {fuel : Nat} {ops : List SessionStep}
    (h : (start fs fuel).run ops = .ok s) : s.Upholds L :=
  (start_upholds L fs fuel).run hL (start_kept fs fuel) h

end Session

end ComponentHost
