import ComponentHost.Proofs.Boundary.Tokens
import ComponentHost.Proofs.Session.Moves

/-! # Firing a token that no step is given

`Session.AlikeBut` compares two sessions in one of which a token has fired. As long as no store has the token,
a step that is not given it is answered in the same way in both. -/
set_option autoImplicit false

namespace ComponentHost

namespace Session

variable {token : Token} {s s' t : Session} {a : SessionAnswer}

/-! ## Sessions that differ in a token -/

/-- A session that is the same, but that the token may have fired in one of the two only. -/
inductive AlikeBut (token : Token) (s : Session) : Session → Prop where
  | intro (fired : List Token) (h : ∀ other, other ≠ token → s.fired.contains other = fired.contains other) :
      AlikeBut token s { s with fired }

/-- An operation that neither looks at the tokens that have fired nor changes them. -/
structure Blind (f : Session → Session) : Prop where
  commutes : ∀ (s : Session) (fired : List Token), f { s with fired } = { f s with fired }
  fired : ∀ s : Session, (f s).fired = s.fired

theorem Blind.comp {f g : Session → Session} (hg : Blind g) (hf : Blind f) : Blind (g ∘ f) where
  commutes := fun s fired => by rw [Function.comp, hf.commutes, hg.commutes, Function.comp]
  fired := fun s => (hg.fired (f s)).trans (hf.fired s)

theorem blind_update (b : Nat) (f : Boundary → Boundary) : Blind (·.update b f) := ⟨fun _ _ => rfl, fun _ => rfl⟩

theorem blind_acquire (h : Handle) : Blind (·.acquire h) := by
  constructor <;> (intros; unfold acquire; split <;> rfl)

theorem blind_release (h : Handle) : Blind (·.release h) := by
  constructor <;> (intros; unfold release; split <;> rfl)

theorem blind_drop (name : String) : Blind (·.drop name) where
  commutes := fun s fired => by
    have hsame : ({ s with fired } : Session).handle? name = s.handle? name := rfl
    unfold drop
    rw [hsame]
    split
    · rfl
    · next h _ => exact (blind_release h).commutes (s.remove name) fired
  fired := fun s => by
    unfold drop
    split
    · rfl
    · next h _ => exact (blind_release h).fired (s.remove name)

theorem blind_put (name : String) (h : Handle) : Blind fun s => { s with handles := (name, h) :: s.handles } :=
  ⟨fun _ _ => rfl, fun _ => rfl⟩

theorem blind_bind (name : String) (h : Handle) : Blind (·.bind name h) :=
  (blind_put name h).comp (blind_drop name)

theorem blind_add (name : String) (h : Handle) : Blind (·.add name h) :=
  (blind_bind name h).comp (blind_acquire h)

theorem blind_replace (name : String) (h : Handle) : Blind (·.replace name h) :=
  ⟨fun _ _ => rfl, fun _ => rfl⟩

theorem blind_recordLoad (name : String) (b : Option Nat) : Blind (·.recordLoad name b) :=
  ⟨fun _ _ => rfl, fun _ => rfl⟩

theorem blind_place (name : String) (boundary : Boundary) : Blind (·.place name boundary) := by
  have happend : Blind fun s => ({ s with
      boundaries := s.boundaries ++ [boundary]
      nextId := s.nextId + 2 } : Session) := ⟨fun _ _ => rfl, fun _ => rfl⟩
  constructor
  · intro s fired
    have hcontext := ((blind_bind name (.context s.boundaries.length)).comp
      (blind_recordLoad name (some s.boundaries.length))).comp happend
    unfold place
    dsimp only
    split
    · exact ((blind_bind (moduleName name) (.module s.boundaries.length)).comp hcontext).commutes s fired
    · exact hcontext.commutes s fired
  · intro s
    have hcontext := ((blind_bind name (.context s.boundaries.length)).comp
      (blind_recordLoad name (some s.boundaries.length))).comp happend
    unfold place
    dsimp only
    split
    · exact ((blind_bind (moduleName name) (.module s.boundaries.length)).comp hcontext).fired s
    · exact hcontext.fired s

namespace AlikeBut

theorem refl (token : Token) (s : Session) : s.AlikeBut token s := .intro s.fired fun _ _ => rfl

theorem map {f : Session → Session} (hf : Blind f) (h : s.AlikeBut token s') :
    (f s).AlikeBut token (f s') := by
  obtain ⟨fired, h⟩ := h
  rw [hf.commutes s fired]
  exact .intro fired fun other ho => (congrArg (·.contains other) (hf.fired s)).trans (h other ho)

/-- What fires in both makes no difference. -/
theorem fires {fired fired' : List Token} (h : s.AlikeBut token s')
    (hf : ∀ other, other ≠ token → fired.contains other = fired'.contains other) :
    ({ s with fired } : Session).AlikeBut token { s' with fired := fired' } := by
  obtain ⟨_, -⟩ := h
  exact .intro fired' hf

theorem boundaries (h : s.AlikeBut token s') : s'.boundaries = s.boundaries := by
  obtain ⟨fired, -⟩ := h
  rfl

theorem fuel (h : s.AlikeBut token s') : s'.fuel = s.fuel := by
  obtain ⟨fired, -⟩ := h
  rfl

theorem handle? (h : s.AlikeBut token s') (name : String) : s'.handle? name = s.handle? name := by
  obtain ⟨fired, -⟩ := h
  rfl

theorem token? (h : s.AlikeBut token s') : s'.token? = s.token? := by
  obtain ⟨fired, -⟩ := h
  rfl

theorem contains (h : s.AlikeBut token s') {other : Token} (ho : other ≠ token) :
    s.fired.contains other = s'.fired.contains other := by
  obtain ⟨fired, h⟩ := h
  exact h other ho

theorem fireToken (h : s.AlikeBut token s') (fires : Token) :
    (s.fireToken fires).AlikeBut token (s'.fireToken fires) := by
  have hfired : ∀ (u : Session) (other : Token),
      (u.fireToken fires).fired.contains other = (u.fired.contains other || other == fires) := by
    intro u other
    unfold Session.fireToken
    split
    · next hc =>
      by_cases he : other = fires
      · rw [he, hc, Bool.true_or]
      · rw [beq_eq_false_iff_ne.mpr he, Bool.or_false]
    · rw [List.contains_cons, Bool.or_comm]
  have hsame : ∀ u : Session, u.fireToken fires = { u with fired := (u.fireToken fires).fired } := by
    intro u
    unfold Session.fireToken
    split <;> rfl
  rw [hsame s, hsame s']
  refine h.fires fun other ho => ?_
  rw [hfired, hfired, h.contains ho]

end AlikeBut

theorem fireToken_alikeBut (s : Session) (token : Token) : s.AlikeBut token (s.fireToken token) := by
  unfold fireToken
  split
  · exact .refl token s
  · refine .intro _ fun other ho => ?_
    rw [List.contains_cons, beq_eq_false_iff_ne.mpr ho, Bool.false_or]

/-! ## Steps that are not given the token -/

/-- A step calls an instance with a token, waits with it, or looks at it. -/
def Gives (s : Session) (token : Token) : SessionStep → Prop
  | .execute _ _ called _ => called.bind s.token? = some token
  | .wait _ _ _ called _ => called.bind s.token? = some token
  | .describe of => s.handle? of = some (.token token)
  | _ => False

/-- Two steps stall alike, or both answer the same and leave sessions that are the same but for the token. -/
abbrev Outcome.Alike (token : Token) : Outcome → Outcome → Prop :=
  Together fun x y => x.2 = y.2 ∧ x.1.AlikeBut token y.1

/-- No store of a session has a token. -/
structure Idle (s : Session) : Prop where
  providers : ∀ (b : Nat) (boundary : Boundary) (linked : Linked), s.boundaries[b]? = some boundary →
    boundary.content = .active linked → ∀ p ∈ linked.providers, p.token = none
  running : ∀ name b entry store, (name, .running b entry store) ∈ s.handles → store.token = none

theorem Idle.bears (hs : s.Idle) {own : Token → Prop} {b : Nat} {boundary : Boundary}
    (hb : s.boundaries[b]? = some boundary) : boundary.Bears own :=
  fun linked hc p hp => Store.bears_of_none (hs.providers b boundary linked hb hc p hp)

namespace AlikeBut

theorem answer (h : s.AlikeBut token s') (a : SessionAnswer) :
    Outcome.Alike token (s.same a) (s'.same a) := .ok ⟨rfl, h⟩

theorem done (h : s.AlikeBut token s') {f : Session → Session} (hf : Blind f) (a : SessionAnswer) :
    Outcome.Alike token (.ok (f s, a)) (.ok (f s', a)) := .ok ⟨rfl, h.map hf⟩

theorem load (h : s.AlikeBut token s') (name : String) (settings : LoadSettings) (request : LoadRequest) :
    Outcome.Alike token (s.load name settings request) (s'.load name settings request) := by
  have hload : ∀ settings, Boundary.load s'.fs s'.fuel settings ⟨s'.nextId⟩ ⟨s'.nextId + 1⟩ request =
      Boundary.load s.fs s.fuel settings ⟨s.nextId⟩ ⟨s.nextId + 1⟩ request := by
    obtain ⟨fired, -⟩ := h
    exact fun _ => rfl
  unfold Session.load
  split
  · exact h.done (blind_recordLoad name none) _
  · rw [hload]
    split
    · exact .error _
    · exact h.done (blind_recordLoad name none) _
    · next outcome _ => exact h.done (blind_place name outcome.boundary) (.loaded outcome)

theorem instantiate (h : s.AlikeBut token s') (of name : String) :
    Outcome.Alike token (s.instantiate of name) (s'.instantiate of name) := by
  unfold Session.instantiate
  rw [h.handle?, h.boundaries, h.fuel]
  split
  · next b entry _ =>
    split
    · exact h.answer _
    · split
      · exact .error _
      · exact h.done (blind_update b _) _
      · next store _ => exact h.done ((blind_add name (.running b entry store)).comp (blind_update b _)) _
  · exact h.answer _

theorem execute (h : s.AlikeBut token s') (hs : s.Idle) {of argument : String} {called : Option String}
    {cancelAfter : Option Nat} (hn : ¬ s.Gives token (.execute of argument called cancelAfter)) :
    Outcome.Alike token (s.execute of argument called cancelAfter)
      (s'.execute of argument called cancelAfter) := by
  have hcalled : ∀ t, called.bind s.token? = some t → t ≠ token := by
    rintro t ht rfl
    exact hn ht
  by_cases hof : ∃ b entry store, s.handle? of = some (.running b entry store)
  · obtain ⟨b, entry, store, hof⟩ := hof
    cases hb : s.boundaries[b]? with
    | none =>
      simp only [Session.execute, h.handle?, hof, h.boundaries, hb]
      exact h.answer _
    | some boundary =>
      rw [execute_running hof hb, execute_running ((h.handle? of).trans hof) (by rw [h.boundaries, hb]), h.fuel,
        h.token?]
      -- the call is given no such token, and no store has one
      have hagree : Signals.Agree (· ≠ token) ⟨s.fired, alarm (called.bind s.token?) cancelAfter⟩
          ⟨s'.fired, alarm (called.bind s.token?) cancelAfter⟩ := ⟨fun other ho => h.contains ho, rfl⟩
      have hrun := Boundary.execute_alike (hs.bears hb)
        (Store.bears_of_none (hs.running of b entry store (mem_of_handle? hof))) hcalled hagree s.fuel entry
        argument
      generalize boundary.execute s.fuel store entry argument _ ⟨s.fired, _⟩ = left at hrun ⊢
      generalize boundary.execute s.fuel store entry argument _ ⟨s'.fired, _⟩ = right at hrun ⊢
      cases hrun with
      | error stall => exact .error stall
      | @ok e e' he =>
        have hf : Blind fun u => (u.update b fun _ => e.boundary).replace of (.running b entry e.store) :=
          (blind_replace of _).comp (blind_update b _)
        dsimp only
        rw [← he.boundary, ← he.store, ← he.result]
        exact .ok ⟨rfl, (h.map hf).fires he.signals.fired⟩
  · have hnone : ∀ u : Session, u.handle? of = s.handle? of →
        u.execute of argument called cancelAfter = u.same .noSuchHandle := by
      intro u hu
      unfold Session.execute
      rw [hu]
      split
      · next b entry store hh => exact absurd ⟨b, entry, store, hh⟩ hof
      · rfl
    rw [hnone s rfl, hnone s' (h.handle? of)]
    exact h.answer _

theorem rung (h : s.AlikeBut token s') (called : Option Token) (cancelAfter : Option Nat)
    (elapsed : Nat) : (s.rung called cancelAfter elapsed).AlikeBut token (s'.rung called cancelAfter elapsed) := by
  unfold Session.rung
  split
  · split
    · exact h.fireToken _
    · exact h
  · exact h

theorem course (h : s.AlikeBut token s') {called : Option Token}
    (hc : ∀ t, called = some t → t ≠ token) (b : Nat) (boundary : Boundary)
    (released : Option (Handle × Nat)) (cancelAfter : Option Nat) :
    s'.course b boundary released called cancelAfter = s.course b boundary released called cancelAfter := by
  unfold Session.course
  cases called with
  | none => rfl
  | some t => simp only [h.contains (hc t rfl)]

theorem wait (h : s.AlikeBut token s') {of : String} {monitor : Monitor}
    {released : Option (String × Nat)} {called : Option String} {cancelAfter : Option Nat}
    (hn : ¬ s.Gives token (.wait of monitor released called cancelAfter)) :
    Outcome.Alike token (s.wait of monitor released called cancelAfter)
      (s'.wait of monitor released called cancelAfter) := by
  have hcalled : ∀ t, called.bind s.token? = some t → t ≠ token := by
    rintro t ht rfl
    exact hn ht
  have hhandle : s'.handle? = s.handle? := funext h.handle?
  unfold Session.wait
  rw [hhandle, h.boundaries, h.token?]
  split
  · next b _ =>
    split
    · exact h.answer _
    · next boundary _ =>
      dsimp only
      rw [h.course hcalled]
      cases released with
      | none => exact .ok ⟨rfl, h.rung _ cancelAfter _⟩
      | some x => exact .ok ⟨rfl, (h.map (blind_drop x.1)).rung _ cancelAfter _⟩
  · exact h.answer _

theorem describe (h : s.AlikeBut token s') {g : Handle} (hg : g ≠ .token token) :
    s'.describe g = s.describe g := by
  cases g with
  | token t =>
    have hne : t ≠ token := fun he => hg (congrArg Handle.token he)
    simp only [Session.describe, h.contains hne]
  | context | module | compiled | entry | running | observer => simp only [Session.describe, h.boundaries]

theorem step (h : s.AlikeBut token s') (hs : s.Idle) {op : SessionStep} (hn : ¬ s.Gives token op) :
    Outcome.Alike token (s.step op) (s'.step op) := by
  cases op with
  | load name settings request => exact h.load name settings request
  | instantiate of name => exact h.instantiate of name
  | execute of argument called cancelAfter => exact h.execute hs hn
  | wait of monitor released called cancelAfter => exact h.wait hn
  | cancel of =>
    simp only [Session.step, h.token?]
    split
    · exact .ok ⟨rfl, h.fireToken _⟩
    · exact h.answer _
  | describe of =>
    simp only [Session.step, h.handle?]
    have hd : (s.handle? of).bind s'.describe = (s.handle? of).bind s.describe := by
      cases hof : s.handle? of with
      | none => rfl
      | some g =>
        refine h.describe fun hg => hn ?_
        rw [Gives, hof, hg]
    rw [hd]
    split <;> exact h.answer _
  | token name =>
    have hnext : s'.nextToken = s.nextToken := by
      obtain ⟨fired, -⟩ := h
      rfl
    simp only [Session.step, hnext]
    have hcount : Blind fun u => ({ u with nextToken := s.nextToken + 1 } : Session) :=
      ⟨fun _ _ => rfl, fun _ => rfl⟩
    exact h.done ((blind_add name (.token ⟨s.nextToken⟩)).comp hcount) .done
  | unload of name =>
    simp only [Session.step, h.handle?]
    split
    · next b _ =>
      have hu := h.map (((blind_add name (.observer b)).comp (blind_drop of)).comp
        (blind_update b Boundary.requestUnload))
      have hboundaries := hu.boundaries
      simp only [Function.comp] at hu hboundaries
      rw [hboundaries]
      split <;> exact hu.answer _
    · exact h.answer _
  | compiled of name =>
    simp only [Session.step, h.handle?, h.boundaries]
    split
    · next b _ =>
      generalize (s.boundaries[b]?).bind Boundary.script? = script?
      cases script? with
      | none => exact h.answer _
      | some script => exact h.done (blind_add _ _) _
    · exact h.answer _
  | resolve of name contract | observe of name | ids of | clone of name | drop of =>
    simp only [Session.step, h.handle?, h.boundaries]
    (repeat' split) <;> first
      | exact h.answer _
      | exact h.done (blind_add _ _) _
      | exact h.done (blind_drop _) _

end AlikeBut

/-! ## Runs -/

/-- The answers to the steps of a run. -/
def trace (s : Session) : List SessionStep → Except Stall (List SessionAnswer)
  | [] => .ok []
  | op :: ops =>
    match s.step op with
    | .error stall => .error stall
    | .ok (t, a) => (t.trace ops).map (a :: ·)

/-- No step of a run is given the token. -/
def Spares (s : Session) (token : Token) : List SessionStep → Prop
  | [] => True
  | op :: ops => ¬ s.Gives token op ∧ ∀ t a, s.step op = .ok (t, a) → t.Spares token ops

/-- A run that is not given the token is answered in the same way whether the token has fired or not. -/
theorem AlikeBut.trace (h : s.AlikeBut token s') {ops : List SessionStep}
    (hs : ∀ before t, before <+: ops → s.run before = .ok t → t.Idle) (hspares : s.Spares token ops) :
    s'.trace ops = s.trace ops := by
  induction ops generalizing s s' with
  | nil => rfl
  | cons op ops ih =>
    obtain ⟨hn, hrest⟩ := hspares
    have hboth := h.step (hs [] s List.nil_prefix rfl) hn
    rw [Session.trace, Session.trace]
    generalize hl : s.step op = left at hboth ⊢
    generalize s'.step op = right at hboth ⊢
    cases hboth with
    | error stall => rfl
    | @ok x y hxy =>
      obtain ⟨t, a⟩ := x
      obtain ⟨t', a'⟩ := y
      obtain ⟨rfl, ht⟩ := hxy
      have hidle : ∀ before u, before <+: ops → t.run before = .ok u → u.Idle := fun before u hb hu =>
        hs (op :: before) u (List.cons_prefix_cons.mpr ⟨rfl, hb⟩) ((run_cons hl).mpr hu)
      exact congrArg (Except.map (a :: ·)) (ih ht hidle (hrest t a hl))

end Session

end ComponentHost
