import ComponentHost.Proofs.Machine.Signals
import ComponentHost.Proofs.Session.Moves

/-! # Sessions that differ in the stores of instances

`Session.veil` takes the stores of some instances out of sight. Two sessions that are the same then answer every
step in the same way and go on to be the same, as long as none of these instances is called. -/
set_option autoImplicit false

namespace ComponentHost

/-- The handle, with nothing seen of its store if it is an instance of a boundary. -/
def Handle.veil (b : Nat) : Handle → Handle
  | .running c e store => .running c e (if c = b then default else store)
  | h => h

namespace Handle

variable {b : Nat} {h g : Handle}

@[simp] theorem veil_boundary? (b : Nat) (h : Handle) : (h.veil b).boundary? = h.boundary? := by cases h <;> rfl

@[simp] theorem veil_share (b : Nat) (h : Handle) : (h.veil b).share = h.share := by cases h <;> rfl

@[simp] theorem veil_veil (b : Nat) (h : Handle) : (h.veil b).veil b = h.veil b := by
  cases h with
  | running c e store =>
    simp only [veil]
    split <;> rfl
  | _ => rfl

/-- Handles that look the same are the same, but for the stores of instances of the boundary. -/
theorem eq_or_running_of_veil (he : h.veil b = g.veil b) :
    g = h ∨ ∃ entry store store', h = .running b entry store ∧ g = .running b entry store' := by
  cases h with
  | running c entry store =>
    cases g with
    | running c' entry' store' =>
      simp only [veil, Handle.running.injEq] at he
      obtain ⟨rfl, rfl, hs⟩ := he
      by_cases hc : c = b
      · subst hc
        exact .inr ⟨entry, store, store', rfl, rfl⟩
      · rw [if_neg hc, if_neg hc] at hs
        exact .inl (by rw [hs])
    | _ => cases he
  | _ => cases g <;> first | exact .inl he.symm | cases he

end Handle

namespace Session

variable {others : String → Bool} {b : Nat} {s u : Session} {name : String}

/-- The session, with nothing seen of the stores of others among the instances of a boundary. -/
def veil (others : String → Bool) (b : Nat) (s : Session) : Session :=
  { s with handles := s.handles.map fun e => (e.1, if others e.1 then e.2.veil b else e.2) }

@[simp] theorem veil_veil (others : String → Bool) (b : Nat) (s : Session) :
    (s.veil others b).veil others b = s.veil others b := by
  unfold veil
  simp only [List.map_map, Session.mk.injEq, true_and, and_true]
  refine List.map_congr_left fun e _ => ?_
  simp only [Function.comp_apply]
  split <;> simp

theorem veil_handle? (s : Session) (name : String) :
    (s.veil others b).handle? name = (s.handle? name).map fun h => if others name then h.veil b else h :=
  Entries.lookup_map_key s.handles (fun name h => if others name then h.veil b else h) name

/-! ## Operations that do not look at the stores -/

/-- An operation that does the same whether the stores are seen or not. -/
def Veiled (others : String → Bool) (b : Nat) (f : Session → Session) : Prop :=
  ∀ s : Session, (f (s.veil others b)).veil others b = (f s).veil others b

theorem Veiled.comp {f g : Session → Session} (hg : Veiled others b g) (hf : Veiled others b f) :
    Veiled others b (g ∘ f) := by
  intro s
  calc (g (f (s.veil others b))).veil others b = (g ((f (s.veil others b)).veil others b)).veil others b := (hg _).symm
    _ = (g ((f s).veil others b)).veil others b := by rw [hf]
    _ = (g (f s)).veil others b := hg _

theorem veiled_of_commutes {f : Session → Session} (h : ∀ s : Session, f (s.veil others b) = (f s).veil others b) :
    Veiled others b f := by
  intro s
  rw [h, veil_veil]

theorem veiled_update (c : Nat) (f : Boundary → Boundary) : Veiled others b (·.update c f) :=
  veiled_of_commutes fun _ => rfl

theorem veiled_acquire (h : Handle) : Veiled others b (·.acquire h) :=
  veiled_of_commutes fun s => by
    unfold acquire
    split <;> rfl

theorem release_veil_handle (s : Session) (h : Handle) : s.release (h.veil b) = s.release h := by
  unfold release
  rw [Handle.veil_boundary?, Handle.veil_share]

theorem veiled_release (h : Handle) : Veiled others b (·.release h) :=
  veiled_of_commutes fun s => by
    unfold release
    split <;> rfl

theorem remove_veil (s : Session) (name : String) : (s.veil others b).remove name = (s.remove name).veil others b := by
  unfold remove veil
  simp only [List.filter_map]
  rfl

theorem veiled_drop (name : String) : Veiled others b (·.drop name) := by
  intro s
  unfold drop
  dsimp only
  rw [veil_handle?]
  cases hs : s.handle? name with
  | none => exact veil_veil others b s
  | some h =>
    have hrelease : ((s.veil others b).remove name).release (if others name then h.veil b else h) =
        ((s.remove name).veil others b).release h := by
      rw [remove_veil]
      split
      · exact release_veil_handle _ h
      · rfl
    rw [Option.map_some]
    dsimp only
    rw [hrelease]
    exact veiled_release h (s.remove name)

theorem veiled_put (name : String) (h : Handle) :
    Veiled others b fun s => { s with handles := (name, h) :: s.handles } := by
  intro s
  have := veil_veil others b s
  unfold veil at this ⊢
  simp only [Session.mk.injEq, true_and, and_true, List.map_cons, List.cons.injEq] at this ⊢
  exact this

theorem veiled_bind (name : String) (h : Handle) : Veiled others b (·.bind name h) :=
  (veiled_put name h).comp (veiled_drop name)

theorem veiled_add (name : String) (h : Handle) : Veiled others b (·.add name h) :=
  (veiled_bind name h).comp (veiled_acquire h)

theorem veiled_replace (name : String) (h : Handle) : Veiled others b (·.replace name h) := by
  intro s
  unfold replace veil
  simp only [List.map_map, Session.mk.injEq, true_and, and_true]
  refine List.map_congr_left fun e _ => ?_
  simp only [Function.comp_apply]
  by_cases he : (e.1 == name) = true
  · simp [he]
  · simp only [he]
    split <;> simp_all

theorem veiled_recordLoad (name : String) (record : Option Nat) : Veiled others b (·.recordLoad name record) :=
  veiled_of_commutes fun _ => rfl

theorem veiled_place (name : String) (boundary : Boundary) : Veiled others b (·.place name boundary) := by
  intro s
  have happend : Veiled others b fun s => ({ s with
      boundaries := s.boundaries ++ [boundary]
      nextId := s.nextId + 2 } : Session) := veiled_of_commutes fun _ => rfl
  have hcontext := ((veiled_bind name (.context s.boundaries.length)).comp
    (veiled_recordLoad name (some s.boundaries.length))).comp happend
  have hlength : (s.veil others b).boundaries.length = s.boundaries.length := rfl
  unfold place
  dsimp only
  rw [hlength]
  split
  · exact ((veiled_bind (moduleName name) (.module s.boundaries.length)).comp hcontext) s
  · exact hcontext s

theorem veiled_fireToken (token : Token) : Veiled others b (·.fireToken token) :=
  veiled_of_commutes fun s => by
    have hfired : (s.veil others b).fired = s.fired := rfl
    unfold fireToken
    rw [hfired]
    split <;> rfl

theorem veiled_rung (token : Option Token) (cancelAfter : Option Nat) (elapsed : Nat) :
    Veiled others b (·.rung token cancelAfter elapsed) := by
  intro s
  unfold rung
  split
  · split
    · exact veiled_fireToken _ s
    · exact veil_veil others b s
  · exact veil_veil others b s

/-! ## Sessions that look the same -/

/-- Two sessions are the same, but for the stores that are not seen. -/
def Seems (others : String → Bool) (b : Nat) (s u : Session) : Prop := s.veil others b = u.veil others b

namespace Seems

theorem refl (s : Session) : s.Seems others b s := rfl

theorem trans {v : Session} (h : s.Seems others b u) (h' : u.Seems others b v) : s.Seems others b v := Eq.trans h h'

theorem map {f : Session → Session} (h : s.Seems others b u) (hf : Veiled others b f) :
    (f s).Seems others b (f u) := by
  have he : s.veil others b = u.veil others b := h
  rw [Seems, ← hf s, he, hf u]

theorem fs (h : s.Seems others b u) : u.fs = s.fs := (congrArg Session.fs h).symm

theorem fuel (h : s.Seems others b u) : u.fuel = s.fuel := (congrArg Session.fuel h).symm

theorem boundaries (h : s.Seems others b u) : u.boundaries = s.boundaries := (congrArg Session.boundaries h).symm

theorem fired (h : s.Seems others b u) : u.fired = s.fired := (congrArg Session.fired h).symm

theorem nextId (h : s.Seems others b u) : u.nextId = s.nextId := (congrArg Session.nextId h).symm

theorem nextToken (h : s.Seems others b u) : u.nextToken = s.nextToken := (congrArg Session.nextToken h).symm

theorem of_fired (h : s.Seems others b u) (fired : List Token) :
    ({ s with fired } : Session).Seems others b { u with fired } :=
  h.map (veiled_of_commutes (f := fun s => { s with fired }) fun _ => rfl)

theorem handle?_cases (h : s.Seems others b u) (name : String) :
    u.handle? name = s.handle? name ∨ others name = true ∧ ∃ entry store store',
      s.handle? name = some (.running b entry store) ∧ u.handle? name = some (.running b entry store') := by
  have he : (s.veil others b).handle? name = (u.veil others b).handle? name := congrArg (·.handle? name) h
  rw [veil_handle?, veil_handle?] at he
  cases ho : others name with
  | false =>
    rw [ho] at he
    simp only [Bool.false_eq_true, if_false, Option.map_id'] at he
    exact .inl he.symm
  | true =>
    rw [ho] at he
    simp only [if_true] at he
    cases hs : s.handle? name with
    | none =>
      rw [hs, Option.map_none, eq_comm, Option.map_eq_none_iff] at he
      exact .inl he
    | some g =>
      rw [hs, Option.map_some, eq_comm, Option.map_eq_some_iff] at he
      obtain ⟨g', hu, he⟩ := he
      rcases Handle.eq_or_running_of_veil he.symm with rfl | ⟨entry, store, store', rfl, rfl⟩
      · exact .inl hu
      · exact .inr ⟨rfl, entry, store, store', rfl, hu⟩

theorem token? (h : s.Seems others b u) : u.token? = s.token? := by
  funext name
  unfold Session.token?
  rcases h.handle?_cases name with he | ⟨-, entry, store, store', hs, hu⟩
  · rw [he]
  · rw [hs, hu]

end Seems

/-! ## Steps -/

/-- Whether a step calls one of the other instances of a boundary. -/
def callsOther (others : String → Bool) (b : Nat) (s : Session) : SessionStep → Bool
  | .execute of _ _ _ =>
    match s.handle? of with
    | some (.running c _ _) => others of && c == b
    | _ => false
  | _ => false

/-- Two steps stall alike, or answer the same and lead to sessions that look the same. -/
abbrev Outcome.Seem (others : String → Bool) (b : Nat) : Outcome → Outcome → Prop :=
  Together fun x y => x.2 = y.2 ∧ x.1.Seems others b y.1

namespace Seems

theorem answer (h : s.Seems others b u) (a : SessionAnswer) : Outcome.Seem others b (s.same a) (u.same a) :=
  .ok ⟨rfl, h⟩

theorem done (h : s.Seems others b u) {f : Session → Session} (hf : Veiled others b f) (a : SessionAnswer) :
    Outcome.Seem others b (.ok (f s, a)) (.ok (f u, a)) := .ok ⟨rfl, h.map hf⟩

theorem load (h : s.Seems others b u) (name : String) (settings : LoadSettings) (request : LoadRequest) :
    Outcome.Seem others b (s.load name settings request) (u.load name settings request) := by
  have hload : ∀ settings, Boundary.load u.fs u.fuel settings ⟨u.nextId⟩ ⟨u.nextId + 1⟩ request =
      Boundary.load s.fs s.fuel settings ⟨s.nextId⟩ ⟨s.nextId + 1⟩ request := by
    rw [h.fs, h.fuel, h.nextId]
    exact fun _ => rfl
  unfold Session.load
  split
  · exact h.done (veiled_recordLoad name none) _
  · rw [hload]
    split
    · exact .error _
    · exact h.done (veiled_recordLoad name none) _
    · next outcome _ => exact h.done (veiled_place name outcome.boundary) (.loaded outcome)

theorem instantiate (h : s.Seems others b u) (of name : String) :
    Outcome.Seem others b (s.instantiate of name) (u.instantiate of name) := by
  unfold Session.instantiate
  rcases h.handle?_cases of with he | ⟨-, entry, store, store', hs, hu⟩
  · rw [he, h.boundaries, h.fuel]
    split
    · next c entry _ =>
      split
      · exact h.answer _
      · split
        · exact .error _
        · exact h.done (veiled_update c _) _
        · next store _ => exact h.done ((veiled_add name (.running c entry store)).comp (veiled_update c _)) _
    · exact h.answer _
  · rw [hs, hu]
    exact h.answer _

theorem execute (h : s.Seems others b u) {of argument : String} {token : Option String} {cancelAfter : Option Nat}
    (hn : s.callsOther others b (.execute of argument token cancelAfter) = false) :
    Outcome.Seem others b (s.execute of argument token cancelAfter) (u.execute of argument token cancelAfter) := by
  unfold Session.execute
  rcases h.handle?_cases of with he | ⟨ho, entry, store, store', hs, -⟩
  · rw [he, h.boundaries, h.fuel, h.fired, h.token?]
    split
    · next c entry store _ =>
      split
      · exact h.answer _
      · dsimp only
        split
        · exact .error _
        · next e _ =>
          have hreplaced := h.map ((veiled_replace of (.running c entry e.store)).comp
            (veiled_update c fun _ => e.boundary))
          exact .ok ⟨rfl, hreplaced.of_fired e.signals.fired⟩
    · exact h.answer _
  · rw [callsOther, hs, ho] at hn
    simp at hn

theorem course (h : s.Seems others b u) (c : Nat) (boundary : Boundary) (released : Option (Handle × Nat))
    (token : Option Token) (cancelAfter : Option Nat) :
    u.course c boundary released token cancelAfter = s.course c boundary released token cancelAfter := by
  unfold Session.course
  rw [h.fired]

/-- What a wait for a boundary is told of the handle that is dropped in it. -/
theorem course_taken (h : s.Seems others b u) (c : Nat) (boundary : Boundary) (released : Option (String × Nat))
    (token : Option Token) (cancelAfter : Option Nat) :
    u.course c boundary (released.bind fun x => (u.handle? x.1).map fun g => (g, x.2)) token cancelAfter =
      s.course c boundary (released.bind fun x => (s.handle? x.1).map fun g => (g, x.2)) token cancelAfter := by
  rw [h.course]
  cases released with
  | none => rfl
  | some x =>
    rw [Option.bind_some, Option.bind_some]
    rcases h.handle?_cases x.1 with he | ⟨-, entry, store, store', hs, hu⟩
    · rw [he]
    · rw [hs, hu]
      rfl

theorem wait (h : s.Seems others b u) (of : String) (monitor : Monitor) (released : Option (String × Nat))
    (token : Option String) (cancelAfter : Option Nat) :
    Outcome.Seem others b (s.wait of monitor released token cancelAfter)
      (u.wait of monitor released token cancelAfter) := by
  unfold Session.wait
  rcases h.handle?_cases of with he | ⟨-, entry, store, store', hs, hu⟩
  · rw [he, h.boundaries, h.token?]
    split
    · next c _ =>
      split
      · exact h.answer _
      · next boundary _ =>
        dsimp only
        rw [h.course_taken]
        cases released with
        | none => exact .ok ⟨rfl, h.map (veiled_rung _ cancelAfter _)⟩
        | some x => exact .ok ⟨rfl, (h.map (veiled_drop x.1)).map (veiled_rung _ cancelAfter _)⟩
    · exact h.answer _
  · rw [hs, hu]
    exact h.answer _

theorem describe (h : s.Seems others b u) (of : String) :
    (u.handle? of).bind u.describe = (s.handle? of).bind s.describe := by
  rcases h.handle?_cases of with he | ⟨-, entry, store, store', hs, hu⟩
  · rw [he]
    congr 1
    funext g
    unfold Session.describe
    rw [h.boundaries, h.fired]
  · rw [hs, hu]
    simp only [Option.bind_some, Session.describe, Handle.boundary?, h.boundaries]

/-- A step that calls none of the other instances does the same whatever their stores are. -/
theorem step (h : s.Seems others b u) {op : SessionStep} (hn : s.callsOther others b op = false) :
    Outcome.Seem others b (s.step op) (u.step op) := by
  cases op with
  | load name settings request => exact h.load name settings request
  | instantiate of name => exact h.instantiate of name
  | execute of argument token cancelAfter => exact h.execute hn
  | wait of monitor released token cancelAfter => exact h.wait of monitor released token cancelAfter
  | token name =>
    simp only [Session.step, h.nextToken]
    have hcount : Veiled others b fun t => { t with nextToken := s.nextToken + 1 } := veiled_of_commutes fun _ => rfl
    exact h.done ((veiled_add name (.token ⟨s.nextToken⟩)).comp hcount) .done
  | cancel of =>
    simp only [Session.step, h.token?]
    split
    · exact h.done (veiled_fireToken _) _
    · exact h.answer _
  | describe of =>
    simp only [Session.step, h.describe]
    split <;> exact h.answer _
  | unload of name =>
    simp only [Session.step]
    rcases h.handle?_cases of with he | ⟨-, entry, store, store', hs, hu⟩
    · rw [he]
      split
      · next c _ =>
        have hu := h.map (((veiled_add name (.observer c)).comp (veiled_drop of)).comp
          (veiled_update c Boundary.requestUnload))
        have hboundaries := hu.boundaries
        simp only [Function.comp] at hu hboundaries
        rw [hboundaries]
        split <;> exact hu.answer _
      · exact h.answer _
    · rw [hs, hu]
      exact h.answer _
  | resolve of name contract | observe of name | compiled of name | ids of =>
    simp only [Session.step]
    rcases h.handle?_cases of with he | ⟨-, entry, store, store', hs, hu⟩
    · rw [he, h.boundaries]
      (repeat' split) <;> first
        | exact h.answer _
        | exact h.done (veiled_add _ _) _
    · rw [hs, hu]
      exact h.answer _
  | clone of name =>
    simp only [Session.step]
    rcases h.handle?_cases of with he | ⟨-, entry, store, store', hs, hu⟩
    · rw [he]
      (repeat' split) <;> first
        | exact h.answer _
        | exact h.done (veiled_add _ _) _
    · rw [hs, hu]
      exact h.answer _
  | drop of =>
    simp only [Session.step]
    rcases h.handle?_cases of with he | ⟨-, entry, store, store', hs, hu⟩
    · rw [he]
      split
      · exact h.done (veiled_drop of) _
      · exact h.answer _
    · rw [hs, hu]
      exact h.done (veiled_drop of) _

end Seems

end Session

end ComponentHost
