import ComponentHost.Session.Step
import ComponentHost.Proofs.Boundary.Tally
import ComponentHost.Proofs.Entries
import Mathlib.Logic.Relation

/-! # Runs and moves of a session

A run does one step after the other and stops at the first that has no answer. Whatever a step does to
the boundaries and handles of a session, unloading apart, it does by the few moves of `Session.Move`:
`step_moves` says so of every step, and what every move keeps is kept by all steps. -/
set_option autoImplicit false

namespace ComponentHost

/-- What a handle gives rise to: handles of another kind for what it leads to, or another of its own
kind. -/
inductive Handle.Makes : Handle → Handle → Prop where
  | entry (b : Nat) (entry : EntryPoint) : Makes (.module b) (.entry b entry)
  | compiled (b : Nat) : Makes (.module b) (.compiled b)
  | running (b : Nat) (entry : EntryPoint) (store : Store) :
      Makes (.entry b entry) (.running b entry store)
  | clone {h : Handle} (hc : Session.isCloneable h = true) : Makes h h

namespace Session

/-! ## Runs -/

def run (s : Session) : List SessionStep → Except Stall Session
  | [] => .ok s
  | op :: ops =>
    match s.step op with
    | .error stall => .error stall
    | .ok (t, _) => t.run ops

/-- A file system with one directory. -/
def bareFiles : FileSystem := ⟨⟨"/"⟩, [(["base"], .dir)]⟩

theorem run_cons {s t u : Session} {op : SessionStep} {ops : List SessionStep} {a : SessionAnswer}
    (h : s.step op = .ok (t, a)) : s.run (op :: ops) = .ok u ↔ t.run ops = .ok u := by
  rw [run, h]

theorem run_cons_ok {s u : Session} {op : SessionStep} {ops : List SessionStep}
    (h : s.run (op :: ops) = .ok u) : ∃ t a, s.step op = .ok (t, a) ∧ t.run ops = .ok u := by
  rw [run] at h
  cases hs : s.step op with
  | error stall =>
    rw [hs] at h
    cases h
  | ok ta =>
    rw [hs] at h
    exact ⟨ta.1, ta.2, rfl, h⟩

theorem run_induction {P : Session → Prop}
    (hstep : ∀ {s t : Session} {op : SessionStep} {a : SessionAnswer}, P s → s.step op = .ok (t, a) → P t)
    {s u : Session} {ops : List SessionStep} (hs : P s) (h : s.run ops = .ok u) : P u := by
  induction ops generalizing s with
  | nil =>
    cases h
    exact hs
  | cons op ops ih =>
    obtain ⟨t, a, ht, hr⟩ := run_cons_ok h
    exact ih (hstep hs ht) hr

/-! ## What the operations leave alone -/

section Frame
variable (s : Session)

@[simp] theorem update_length (b : Nat) (f : Boundary → Boundary) :
    (s.update b f).boundaries.length = s.boundaries.length := List.length_modify ..

@[simp] theorem update_handles (b : Nat) (f : Boundary → Boundary) :
    (s.update b f).handles = s.handles := rfl

@[simp] theorem acquire_length (h : Handle) :
    (s.acquire h).boundaries.length = s.boundaries.length := by
  unfold acquire
  split <;> simp

@[simp] theorem acquire_handles (h : Handle) : (s.acquire h).handles = s.handles := by
  unfold acquire
  split <;> simp

@[simp] theorem release_length (h : Handle) :
    (s.release h).boundaries.length = s.boundaries.length := by
  unfold release
  split <;> simp

@[simp] theorem release_handles (h : Handle) : (s.release h).handles = s.handles := by
  unfold release
  split <;> simp

@[simp] theorem drop_length (name : String) :
    (s.drop name).boundaries.length = s.boundaries.length := by
  unfold drop
  split
  · rfl
  · simp [remove]

@[simp] theorem bind_length (name : String) (h : Handle) :
    (s.bind name h).boundaries.length = s.boundaries.length := by simp [bind]

@[simp] theorem add_length (name : String) (h : Handle) :
    (s.add name h).boundaries.length = s.boundaries.length := by simp [add]

@[simp] theorem update_loads (b : Nat) (f : Boundary → Boundary) :
    (s.update b f).loads = s.loads := rfl

@[simp] theorem acquire_loads (h : Handle) : (s.acquire h).loads = s.loads := by
  unfold acquire
  split <;> simp

@[simp] theorem release_loads (h : Handle) : (s.release h).loads = s.loads := by
  unfold release
  split <;> simp

@[simp] theorem drop_loads (name : String) : (s.drop name).loads = s.loads := by
  unfold drop
  split
  · rfl
  · simp [remove]

@[simp] theorem bind_loads (name : String) (h : Handle) : (s.bind name h).loads = s.loads := by
  simp [bind]

@[simp] theorem add_loads (name : String) (h : Handle) : (s.add name h).loads = s.loads := by
  simp [add]

@[simp] theorem fireToken_loads (token : Token) : (s.fireToken token).loads = s.loads := by
  unfold fireToken
  split <;> rfl

@[simp] theorem acquire_nextToken (h : Handle) : (s.acquire h).nextToken = s.nextToken := by
  unfold acquire
  split <;> rfl

@[simp] theorem release_nextToken (h : Handle) : (s.release h).nextToken = s.nextToken := by
  unfold release
  split <;> rfl

@[simp] theorem drop_nextToken (name : String) : (s.drop name).nextToken = s.nextToken := by
  unfold drop
  split
  · rfl
  · simp [remove]

@[simp] theorem bind_nextToken (name : String) (h : Handle) :
    (s.bind name h).nextToken = s.nextToken := by simp [bind]

@[simp] theorem add_nextToken (name : String) (h : Handle) :
    (s.add name h).nextToken = s.nextToken := by simp [add]

@[simp] theorem fireToken_nextToken (token : Token) :
    (s.fireToken token).nextToken = s.nextToken := by
  unfold fireToken
  split <;> rfl

end Frame

theorem drop_handles (s : Session) (name : String) :
    (s.drop name).handles = s.handles.filter (·.1 != name) := by
  unfold drop
  split
  · next h => exact (Entries.filter_of_lookup_none h).symm
  · simp [remove]

theorem bind_handles (s : Session) (name : String) (h : Handle) :
    (s.bind name h).handles = (name, h) :: s.handles.filter (·.1 != name) := by
  rw [bind, drop_handles]

/-! ## Where handles come from -/

section Members
variable {s : Session} {name : String} {h : Handle} {e : String × Handle}

theorem mem_of_handle? (hh : s.handle? name = some h) : (name, h) ∈ s.handles :=
  Entries.mem_of_lookup hh

theorem mem_drop (he : e ∈ (s.drop name).handles) : e ∈ s.handles := by
  rw [drop_handles] at he
  exact (List.mem_filter.mp he).1

theorem mem_bind (he : e ∈ (s.bind name h).handles) : e ∈ s.handles ∨ e = (name, h) :=
  (List.mem_cons.mp he).symm.imp_left mem_drop

theorem mem_add (he : e ∈ (s.add name h).handles) : e ∈ s.handles ∨ e = (name, h) := by
  rw [← acquire_handles s h]
  exact mem_bind he

theorem mem_replace (he : e ∈ (s.replace name h).handles) : e ∈ s.handles ∨ e = (name, h) := by
  obtain ⟨e', he', rfl⟩ := List.mem_map.mp he
  by_cases hn : e'.1 = name
  · exact Or.inr (if_pos (beq_iff_eq.mpr hn))
  · refine Or.inl ?_
    rwa [if_neg (by simpa using hn)]

end Members

/-! ## Moves -/

/-- The session with a new boundary, and handles to it and to its module if it has one. -/
def place (s : Session) (name : String) (boundary : Boundary) : Session :=
  let number := s.boundaries.length
  let s := { s with boundaries := s.boundaries ++ [boundary], nextId := s.nextId + 2 }
  let s := (s.recordLoad name (some number)).bind name (.context number)
  if boundary.isActive then s.bind (moduleName name) (.module number) else s

/-- The changes that steps are made of, unloading apart. -/
inductive Move : Session → Session → Prop where
  /-- Neither boundaries nor handles change. -/
  | idle {s t : Session} (hb : t.boundaries = s.boundaries) (hh : t.handles = s.handles) : Move s t
  | make {s : Session} {of : String} (name : String) {h h' : Handle} (hof : s.handle? of = some h)
      (hm : h.Makes h') : Move s (s.add name h')
  | observe {s : Session} (name : String) {b : Nat} (hb : b < s.boundaries.length) :
      Move s (s.add name (.observer b))
  | token {s : Session} (name : String) (token : Token) : Move s (s.add name (.token token))
  | drop (s : Session) (name : String) : Move s (s.drop name)
  | use (s : Session) (b : Nat) (providers : Array Store) :
      Move s (s.update b (·.withProviders providers))
  | store {s : Session} {of : String} {b : Nat} {entry : EntryPoint} {store : Store} (store' : Store)
      (hof : s.handle? of = some (.running b entry store)) :
      Move s (s.replace of (.running b entry store'))
  | load (s : Session) (name : String) (id : Id) (baseDir : Path) (maxMemoryBytes : Option Nat)
      (loaded : Option (CompiledScript × Linked)) :
      Move s (s.place name (.make id baseDir maxMemoryBytes loaded))

theorem place_length (s : Session) (name : String) (boundary : Boundary) :
    (s.place name boundary).boundaries.length = s.boundaries.length + 1 := by
  unfold place
  dsimp only
  split <;> simp [recordLoad]

theorem mem_place {s : Session} {name : String} {boundary : Boundary} {e : String × Handle}
    (he : e ∈ (s.place name boundary).handles) :
    e ∈ s.handles ∨ e.2.boundary? = some s.boundaries.length := by
  unfold place at he
  dsimp only at he
  split at he
  · rcases mem_bind he with he | rfl
    · rcases mem_bind he with he | rfl
      · exact Or.inl he
      · exact Or.inr rfl
    · exact Or.inr rfl
  · rcases mem_bind he with he | rfl
    · exact Or.inl he
    · exact Or.inr rfl

theorem Move.length_le {s t : Session} (hm : Move s t) :
    s.boundaries.length ≤ t.boundaries.length := by
  cases hm with
  | idle hb => exact Nat.le_of_eq (congrArg List.length hb.symm)
  | make | observe | token | drop | use => simp
  | store => exact Nat.le_refl _
  | load name id baseDir maxMemoryBytes loaded =>
    rw [place_length]
    exact Nat.le_succ _

abbrev Moves : Session → Session → Prop := Relation.ReflTransGen Move

variable {s t : Session} {a : SessionAnswer}

theorem moves_fireToken (s : Session) (token : Token) : Moves s (s.fireToken token) := by
  refine .single (.idle ?_ ?_) <;> (unfold fireToken; split <;> rfl)

theorem Moves.keep {P : Session → Prop} (hmove : ∀ {s t : Session}, P s → Move s t → P t)
    (h : Moves s t) (hs : P s) : P t := by
  induction h with
  | refl => exact hs
  | tail _ hm ih => exact hmove ih hm

/-! ## Calls and waits that are given a token -/

/-- When a token is to fire in a call, as a number of steps. -/
def alarm (token : Option Token) (cancelAfter : Option Nat) : Option (Nat × Token) :=
  match token, cancelAfter with
  | some token, some millis => some (millis * stepsPerMilli, token)
  | _, _ => none

/-- The session behind a wait in which a token was to fire. -/
def rung (s : Session) (token : Option Token) (cancelAfter : Option Nat) (elapsed : Nat) : Session :=
  match token, cancelAfter with
  | some token, some millis => if nanosOfMillis millis ≤ elapsed then s.fireToken token else s
  | _, _ => s

theorem execute_running {of : String} {b : Nat} {entry : EntryPoint} {store : Store} {boundary : Boundary}
    (hof : s.handle? of = some (.running b entry store)) (hb : s.boundaries[b]? = some boundary)
    (argument : String) (token : Option String) (cancelAfter : Option Nat) :
    s.execute of argument token cancelAfter =
      match boundary.execute s.fuel store entry argument (token.bind s.token?)
          ⟨s.fired, alarm (token.bind s.token?) cancelAfter⟩ with
      | .error stall => .error stall
      | .ok e => .ok ({ (s.update b fun _ => e.boundary).replace of (.running b entry e.store) with
          fired := e.signals.fired }, .executed e.result) := by
  unfold execute
  rw [hof]
  dsimp only
  rw [hb]
  rfl

/-! ## The moves of each step -/

theorem update_of_getElem? {b : Nat} {boundary : Boundary} (f : Boundary → Boundary)
    (hb : s.boundaries[b]? = some boundary) : (s.update b fun _ => f boundary) = s.update b f := by
  have : s.boundaries.modify b (fun _ => f boundary) = s.boundaries.modify b f := by
    refine List.ext_getElem? fun i => ?_
    rw [List.getElem?_modify, List.getElem?_modify]
    by_cases hi : b = i
    · subst hi
      simp [hb]
    · simp [hi]
  rw [update, this, update]

theorem load_moves {name : String} {settings : LoadSettings} {request : LoadRequest}
    (h : s.load name settings request = .ok (t, a)) : Moves s t := by
  unfold load at h
  split at h
  · cases h
    exact .single (.idle rfl rfl)
  · split at h
    · cases h
    · cases h
      exact .single (.idle rfl rfl)
    · next outcome hl =>
      obtain ⟨baseDir, maxMemoryBytes, loaded, hm⟩ := Boundary.load_make hl
      cases h
      have := Move.load s name ⟨s.nextId⟩ baseDir maxMemoryBytes loaded
      rw [← hm] at this
      exact .single this

theorem resolve_moves {of name : String} {contract : Contract}
    (h : s.step (.resolve of name contract) = .ok (t, a)) : Moves s t := by
  simp only [step] at h
  split at h
  · next b hof =>
    split at h
    · cases h
      exact .refl
    · split at h
      · cases h
        exact .refl
      · next entry _ =>
        cases h
        exact .single (.make name hof (.entry b entry))
  · cases h
    exact .refl

theorem instantiate_moves {of name : String} (h : s.instantiate of name = .ok (t, a)) :
    Moves s t := by
  unfold instantiate at h
  split at h
  · next b entry hof =>
    split at h
    · cases h
      exact .refl
    · next boundary hb =>
      split at h
      · cases h
      · next boundary' e hi =>
        obtain ⟨providers, rfl⟩ := Boundary.instantiate_providers hi
        cases h
        rw [update_of_getElem? (·.withProviders providers) hb]
        exact .single (.use s b providers)
      · next boundary' store hi =>
        obtain ⟨providers, rfl⟩ := Boundary.instantiate_providers hi
        cases h
        rw [update_of_getElem? (·.withProviders providers) hb]
        exact .head (.use s b providers) (.single (.make name hof (.running b entry store)))
  · cases h
    exact .refl

theorem execute_moves {of argument : String} {token : Option String} {cancelAfter : Option Nat}
    (h : s.execute of argument token cancelAfter = .ok (t, a)) : Moves s t := by
  unfold execute at h
  split at h
  · next b entry store hof =>
    split at h
    · cases h
      exact .refl
    · next boundary hb =>
      dsimp only at h
      split at h
      · cases h
      · next e he =>
        obtain ⟨providers, hp⟩ := Boundary.execute_providers he
        cases h
        rw [hp, update_of_getElem? (·.withProviders providers) hb]
        exact .head (.use s b providers) (.head (.store e.store hof) (.single (.idle rfl rfl)))
  · cases h
    exact .refl

theorem moves_rung (s : Session) (token : Option Token) (cancelAfter : Option Nat) (elapsed : Nat) :
    Moves s (s.rung token cancelAfter elapsed) := by
  unfold rung
  split
  · split
    · exact moves_fireToken s _
    · exact .refl
  · exact .refl

theorem wait_moves {of : String} {monitor : Monitor} {released : Option (String × Nat)}
    {token : Option String} {cancelAfter : Option Nat}
    (h : s.wait of monitor released token cancelAfter = .ok (t, a)) : Moves s t := by
  unfold wait at h
  split at h
  · split at h
    · cases h
      exact .refl
    · cases h
      cases released with
      | none => exact moves_rung s _ cancelAfter _
      | some taken => exact .head (.drop s taken.1) (moves_rung _ _ cancelAfter _)
  · cases h
    exact .refl

theorem unload_moves {of name : String} {b : Nat}
    (hs : ∀ e ∈ s.handles, ∀ b, e.2.boundary? = some b → b < s.boundaries.length)
    (hof : s.handle? of = some (.context b)) (h : s.step (.unload of name) = .ok (t, a)) :
    Moves (s.update b Boundary.requestUnload) t := by
  have hb : b < ((s.update b Boundary.requestUnload).drop of).boundaries.length := by
    simpa using hs _ (mem_of_handle? hof) b rfl
  have hm : Moves (s.update b Boundary.requestUnload)
      (((s.update b Boundary.requestUnload).drop of).add name (.observer b)) :=
    .head (.drop _ of) (.single (.observe name hb))
  simp only [step, hof] at h
  split at h <;> (cases h; exact hm)

/-- Every step but unloading is made of moves. -/
theorem step_moves {op : SessionStep}
    (hs : ∀ e ∈ s.handles, ∀ b, e.2.boundary? = some b → b < s.boundaries.length)
    (h : s.step op = .ok (t, a)) :
    Moves s t ∨ ∃ of name b, op = .unload of name ∧ s.handle? of = some (.context b) ∧
      Moves (s.update b Boundary.requestUnload) t := by
  -- wherever the handle of a name is not there, or of another kind, nothing moves
  cases op with
  | load name settings request => exact Or.inl (load_moves h)
  | resolve of name contract => exact Or.inl (resolve_moves h)
  | instantiate of name => exact Or.inl (instantiate_moves h)
  | execute of argument token cancelAfter => exact Or.inl (execute_moves h)
  | wait of monitor released token cancelAfter => exact Or.inl (wait_moves h)
  | token name =>
    cases h
    refine Or.inl (.head (.idle (t := { s with nextToken := s.nextToken + 1 }) rfl rfl) ?_)
    exact .single (.token name ⟨s.nextToken⟩)
  | cancel of =>
    simp only [step] at h
    split at h
    · cases h
      exact Or.inl (moves_fireToken s _)
    · cases h
      exact Or.inl .refl
  | observe of name =>
    simp only [step] at h
    split at h
    · next b hof =>
      split at h
      · cases h
        exact Or.inl .refl
      · next hb =>
        cases h
        exact Or.inl (.single (.observe name (List.getElem?_eq_some_iff.mp hb).1))
    · cases h
      exact Or.inl .refl
  | unload of name =>
    cases hof : s.handle? of with
    | some handle =>
      cases handle with
      | context b => exact Or.inr ⟨of, name, b, rfl, hof, unload_moves hs hof h⟩
      | _ =>
        simp only [step, hof] at h
        cases h
        exact Or.inl .refl
    | none =>
      simp only [step, hof] at h
      cases h
      exact Or.inl .refl
  | compiled of name =>
    simp only [step] at h
    split at h
    · next b hof =>
      split at h
      · cases h
        exact Or.inl .refl
      · cases h
        exact Or.inl (.single (.make name hof (.compiled b)))
    · cases h
      exact Or.inl .refl
  | ids of =>
    simp only [step] at h
    (repeat' split at h) <;> (cases h; exact Or.inl .refl)
  | clone of name =>
    simp only [step] at h
    split at h
    · next h' hof =>
      split at h
      · next hc =>
        cases h
        exact Or.inl (.single (.make name hof (.clone hc)))
      · cases h
        exact Or.inl .refl
    · cases h
      exact Or.inl .refl
  | drop of =>
    simp only [step] at h
    split at h
    · cases h
      exact Or.inl (.single (.drop s of))
    · cases h
      exact Or.inl .refl
  | describe of =>
    simp only [step] at h
    split at h <;> (cases h; exact Or.inl .refl)

end Session

end ComponentHost
