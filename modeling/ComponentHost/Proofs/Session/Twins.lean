import ComponentHost.Proofs.Session.Alone
import ComponentHost.Proofs.Session.Cancellation

/-! # Instances of one script in two sessions

An instance of a script that imports nothing starts with the same store whenever it is made. From then on, as long
as it is used in the same way and the same of its tokens have fired, it gives the same answers. -/
set_option autoImplicit false

namespace ComponentHost

namespace Boundary

variable {own : Token → Prop} {script : Component} {b b' : Boundary}

theorem bears_of_alone (hc : b.content = .active (.alone script)) :
    b.Bears own := by
  intro linked hl p hp
  cases hc.symm.trans hl
  exact absurd hp (Array.not_mem_empty p)

/-- What a call comes to depends on what is loaded in the boundary only. -/
theorem execute_same (h : b'.content = b.content) (fuel : Nat) (store : Store) (entry : EntryPoint)
    (argument : String) (token : Option Token) (signals : Signals) :
    Together (fun e e' => e.store = e'.store ∧ e.signals = e'.signals ∧ e.result = e'.result)
      (b.execute fuel store entry argument token signals) (b'.execute fuel store entry argument token signals) := by
  unfold execute
  rw [h]
  (repeat' split) <;> first
    | exact .error _
    | exact .ok ⟨rfl, rfl, rfl⟩

/-- So does what comes of making an instance, and on the limit. -/
theorem instantiate_same (h : b'.content = b.content) (hm : b'.maxMemoryBytes = b.maxMemoryBytes) (fuel : Nat) :
    Together (fun x y => x.2 = y.2) (b.instantiate fuel) (b'.instantiate fuel) := by
  unfold instantiate
  rw [h, hm]
  (repeat' split) <;> first
    | exact .error _
    | exact .ok rfl

theorem execute_leaves_alone (hc : b.content = .active (.alone script)) {fuel : Nat} {store : Store}
    {entry : EntryPoint} {argument : String} {token : Option Token} {signals : Signals} {e : Execution}
    (h : b.execute fuel store entry argument token signals = .ok e) : e.boundary = b :=
  execute_of_alone (fun _ hl => (Content.active.inj (hc.symm.trans hl)).symm) h

theorem instantiate_leaves_alone (hc : b.content = .active (.alone script)) {fuel : Nat} {made : Boundary}
    {r : Except EntryPointError Store} (h : b.instantiate fuel = .ok (made, r)) : made = b :=
  instantiate_of_alone (fun _ hl => (Content.active.inj (hc.symm.trans hl)).symm) h

/-- Two calls with the same store come to the same, where the same script is loaded and imports nothing. They leave
their boundaries as they are. -/
theorem execute_together (hc : b.content = .active (.alone script)) (hc' : b'.content = .active (.alone script))
    {store : Store} (hs : store.Bears own) {token : Option Token} (ht : ∀ t, token = some t → own t)
    {signals signals' : Signals} (h : signals.Agree own signals') (fuel : Nat) (entry : EntryPoint)
    (argument : String) :
    Together (fun e e' => e.boundary = b ∧ e'.boundary = b' ∧ e.store = e'.store ∧ e.result = e'.result ∧
        e.signals.Agree own e'.signals ∧ e.store.Bears own)
      (b.execute fuel store entry argument token signals) (b'.execute fuel store entry argument token signals') := by
  have hleaves : ∀ {e : Execution}, b.execute fuel store entry argument token signals = .ok e → e.boundary = b :=
    execute_leaves_alone hc
  have hleaves' : ∀ {e : Execution}, b'.execute fuel store entry argument token signals' = .ok e → e.boundary = b' :=
    execute_leaves_alone hc'
  -- from the one call to the other: first the tokens that have fired change, then the boundary
  have halike := execute_alike (bears_of_alone hc) hs ht h fuel entry argument
  have hsame := execute_same (hc'.trans hc.symm) fuel store entry argument token signals'
  generalize b.execute fuel store entry argument token signals = first at halike hleaves ⊢
  generalize b.execute fuel store entry argument token signals' = middle at halike hsame
  generalize b'.execute fuel store entry argument token signals' = last at hsame hleaves' ⊢
  cases halike with
  | error stall =>
    cases hsame
    exact .error stall
  | ok ha =>
    cases hsame with
    | ok hs =>
      obtain ⟨hstore, hsignals, hresult⟩ := hs
      exact .ok ⟨hleaves rfl, hleaves' rfl, ha.store.trans hstore, ha.result.trans hresult, hsignals ▸ ha.signals,
        ha.bears.2⟩

/-- So do the makings of two instances. -/
theorem instantiate_together (own : Token → Prop) (hc : b.content = .active (.alone script))
    (hc' : b'.content = .active (.alone script)) (hm : b'.maxMemoryBytes = b.maxMemoryBytes) (fuel : Nat) :
    Together (fun x y => x.1 = b ∧ y.1 = b' ∧ x.2 = y.2 ∧ ∀ store, x.2 = .ok store → store.Bears own)
      (b.instantiate fuel) (b'.instantiate fuel) := by
  have hmakes : ∀ {x : Boundary × Except EntryPointError Store}, b.instantiate fuel = .ok x →
      x.1 = b ∧ ∀ store, x.2 = .ok store → store.Bears own := fun h =>
    ⟨instantiate_leaves_alone hc h, (instantiate_bears (bears_of_alone hc) h).2⟩
  have hleaves' : ∀ {y : Boundary × Except EntryPointError Store}, b'.instantiate fuel = .ok y → y.1 = b' :=
    instantiate_leaves_alone hc'
  have hsame := instantiate_same (hc'.trans hc.symm) hm fuel
  generalize b.instantiate fuel = first at hmakes hsame ⊢
  generalize b'.instantiate fuel = last at hleaves' hsame ⊢
  cases hsame with
  | error stall => exact .error stall
  | ok hr => exact .ok ⟨(hmakes rfl).1, hleaves' rfl, hr, (hmakes rfl).2⟩

end Boundary

/-- What may be done about an instance: it is called, or a token is fired that calls are given. -/
inductive InstanceUse where
  | call (argument : String) (token : Option String) (cancelAfter : Option Nat)
  | cancel (token : String)

namespace InstanceUse

/-- The use of the instance of this name. -/
def step (name : String) : InstanceUse → SessionStep
  | .call argument token cancelAfter => .execute name argument token cancelAfter
  | .cancel token => .cancel token

/-- The name of the token that a use is given. -/
def token? : InstanceUse → Option String
  | .call _ token _ => token
  | .cancel token => some token

end InstanceUse

namespace Session

variable {own : Token → Prop} {script : Component} {i j : String} {s t : Session}

/-! ## Names and numbers of steps -/

theorem replace_handle? (s : Session) (name other : String) (h : Handle) :
    (s.replace name h).handle? other = (s.handle? other).map fun g => if other == name then h else g := by
  have hmap : (s.replace name h).handles = s.handles.map fun e => (e.1, if e.1 == name then h else e.2) := by
    refine List.map_congr_left fun e _ => ?_
    split
    · next he => rw [eq_of_beq he]
    · rfl
  rw [handle?, hmap]
  exact Entries.lookup_map_key s.handles (fun key g => if key == name then h else g) other

theorem replace_token? {name : String} {c : Nat} {entry : EntryPoint} {store : Store}
    (hn : s.handle? name = some (.running c entry store)) (store' : Store) :
    (s.replace name (.running c entry store')).token? = s.token? := by
  funext other
  unfold token?
  rw [replace_handle?]
  by_cases ho : other = name
  · subst ho
    rw [hn]
    simp
  · have hne : (other == name) = false := by simpa using ho
    simp [hne]

theorem add_handle? (s : Session) (name other : String) (h : Handle) :
    (s.add name h).handle? other = if other = name then some h else s.handle? other := by
  rw [handle?, add, bind_handles, acquire_handles]
  split
  · next ho => rw [List.lookup_cons, beq_iff_eq.mpr ho]
  · next ho => exact Entries.lookup_put_of_ne s.handles h ho

/-- Under a name that was free, an instance hides no token. -/
theorem add_token? {name : String} (hn : s.handle? name = none) (c : Nat) (entry : EntryPoint) (store : Store) :
    (s.add name (.running c entry store)).token? = s.token? := by
  funext other
  unfold token?
  rw [add_handle?]
  by_cases ho : other = name
  · rw [if_pos ho, ho, hn]
  · rw [if_neg ho]

/-- Dropping a handle changes boundaries and handles only. -/
theorem drop_frame (s : Session) (name : String) :
    s.drop name = { s with boundaries := (s.drop name).boundaries, handles := (s.drop name).handles } := by
  unfold drop release remove
  split
  · rfl
  · split <;> rfl

theorem bind_frame (s : Session) (name : String) (h : Handle) :
    s.bind name h = { s with boundaries := (s.bind name h).boundaries, handles := (s.bind name h).handles } := by
  unfold bind
  rw [drop_frame]

theorem add_frame (s : Session) (name : String) (h : Handle) :
    s.add name h = { s with boundaries := (s.add name h).boundaries, handles := (s.add name h).handles } := by
  unfold add
  rw [bind_frame]
  unfold acquire
  split <;> rfl

@[simp] theorem drop_fuel (s : Session) (name : String) : (s.drop name).fuel = s.fuel := by
  rw [drop_frame]

@[simp] theorem bind_fuel (s : Session) (name : String) (h : Handle) : (s.bind name h).fuel = s.fuel := by
  rw [bind_frame]

@[simp] theorem add_fuel (s : Session) (name : String) (h : Handle) : (s.add name h).fuel = s.fuel := by
  rw [add_frame]

@[simp] theorem add_fired (s : Session) (name : String) (h : Handle) : (s.add name h).fired = s.fired := by
  rw [add_frame]

@[simp] theorem fireToken_fuel (s : Session) (token : Token) : (s.fireToken token).fuel = s.fuel := by
  unfold fireToken
  split <;> rfl

/-- No step changes how many steps a run may take. -/
theorem step_fuel {op : SessionStep} {a : SessionAnswer} (h : s.step op = .ok (t, a)) : t.fuel = s.fuel := by
  cases op with
  | load name settings request =>
    simp only [step, load] at h
    (repeat' split at h) <;> cases h <;> simp [recordLoad]
  | instantiate of name =>
    simp only [step, instantiate] at h
    (repeat' split at h) <;> cases h <;> simp [update]
  | execute of argument called cancelAfter =>
    simp only [step, execute] at h
    (repeat' split at h) <;> cases h <;> simp [update, replace]
  | wait of monitor released called cancelAfter =>
    simp only [step, wait] at h
    split at h
    · split at h <;> cases h
      · rfl
      · cases released <;> dsimp only <;> (repeat' split) <;> simp
    · cases h
      rfl
  | _ =>
    simp only [step] at h
    (repeat' split at h) <;> cases h <;> simp [update]

theorem run_fuel {ops : List SessionStep} (h : s.run ops = .ok t) : t.fuel = s.fuel :=
  run_induction (P := fun u => u.fuel = s.fuel) (fun hu hstep => (step_fuel hstep).trans hu) rfl h

/-! ## Twins -/

/-- A name stands for an instance of a script that is loaded and linked with nothing. -/
inductive HasInstance (s : Session) (name : String) (script : Component) (entry : EntryPoint) (store : Store) :
    Prop where
  | intro {b : Nat} {boundary : Boundary} (hn : s.handle? name = some (.running b entry store))
      (hb : s.boundaries[b]? = some boundary) (hc : boundary.content = .active (.alone script)) :
      HasInstance s name script entry store

/-- A name stands for an entry point of such a script, under a limit. -/
inductive HasEntry (s : Session) (name : String) (script : Component) (maxMemoryBytes : Option Nat)
    (entry : EntryPoint) : Prop where
  | intro {b : Nat} {boundary : Boundary} (hn : s.handle? name = some (.entry b entry))
      (hb : s.boundaries[b]? = some boundary) (hc : boundary.content = .active (.alone script))
      (hm : boundary.maxMemoryBytes = maxMemoryBytes) : HasEntry s name script maxMemoryBytes entry

theorem HasInstance.of_eq {name : String} {entry : EntryPoint} {store : Store}
    (h : s.HasInstance name script entry store) (hb : t.boundaries = s.boundaries) (hh : t.handles = s.handles) :
    t.HasInstance name script entry store := by
  obtain ⟨hn, hboundary, hc⟩ := h
  exact .intro ((congrArg (List.lookup name) hh).trans hn) (hb ▸ hboundary) hc

/-- Two names, each in a session of its own, stand for instances with the same store or for nothing. The tokens that
uses are given have fired in both sessions or in neither. -/
structure Twins (own : Token → Prop) (script : Component) (i j : String) (s t : Session) : Prop where
  fuel : t.fuel = s.fuel
  fired : ∀ token, own token → s.fired.contains token = t.fired.contains token
  instances : (s.handle? i = none ∧ t.handle? j = none) ∨ ∃ entry store,
    s.HasInstance i script entry store ∧ t.HasInstance j script entry store ∧ store.Bears own

/-- Two steps stall alike, or answer the same and lead to twins; and they leave every token under its name. -/
abbrev Outcome.Twin (own : Token → Prop) (script : Component) (i j : String) (s t : Session) :
    Outcome → Outcome → Prop :=
  Together fun x y => x.2 = y.2 ∧ x.1.Twins own script i j y.1 ∧ x.1.token? = s.token? ∧ y.1.token? = t.token?

/-- A call leaves an instance behind. -/
theorem HasInstance.replaced {b : Nat} {boundary : Boundary} {entry : EntryPoint} {store : Store}
    (hn : s.handle? i = some (.running b entry store)) (hb : s.boundaries[b]? = some boundary)
    (hc : boundary.content = .active (.alone script)) (store' : Store) :
    (s.replace i (.running b entry store')).HasInstance i script entry store' := by
  refine .intro (b := b) ?_ hb hc
  have hreplaced := replace_handle? s i i (.running b entry store')
  rw [hn, Option.map_some, beq_self_eq_true, if_pos rfl] at hreplaced
  exact hreplaced

namespace Twins

theorem same (h : s.Twins own script i j t) (a : SessionAnswer) :
    Outcome.Twin own script i j s t (s.same a) (t.same a) := .ok ⟨rfl, h, rfl, rfl⟩

theorem execute (h : s.Twins own script i j t) {argument : String} {called : Option String} {cancelAfter : Option Nat}
    (hcalled : called.bind t.token? = called.bind s.token?)
    (hown : ∀ token, called.bind s.token? = some token → own token) :
    Outcome.Twin own script i j s t (s.execute i argument called cancelAfter)
      (t.execute j argument called cancelAfter) := by
  rcases h.instances with ⟨hn, hn'⟩ | ⟨entry, store, ⟨hn, hb, hc⟩, ⟨hn', hb', hc'⟩, hbears⟩
  · unfold Session.execute
    rw [hn, hn']
    exact h.same _
  · rw [execute_running hn hb, execute_running hn' hb', h.fuel, hcalled]
    have hagree : Signals.Agree own ⟨s.fired, alarm (called.bind s.token?) cancelAfter⟩
        ⟨t.fired, alarm (called.bind s.token?) cancelAfter⟩ := ⟨h.fired, rfl⟩
    have hboth := Boundary.execute_together hc hc' hbears hown hagree s.fuel entry argument
    generalize Boundary.execute _ s.fuel store entry argument _ ⟨s.fired, _⟩ = x at hboth ⊢
    generalize Boundary.execute _ s.fuel store entry argument _ ⟨t.fired, _⟩ = y at hboth ⊢
    cases hboth with
    | error stall => exact .error stall
    | @ok e e' he =>
      obtain ⟨hboundary, hboundary', hstore, hresult, hsignals, hleft⟩ := he
      dsimp only
      rw [hboundary, hboundary', ← hstore, ← hresult, update_self hb, update_self hb']
      have hinstance := HasInstance.replaced hn hb hc e.store
      have hinstance' := HasInstance.replaced hn' hb' hc' e.store
      exact .ok ⟨rfl, ⟨h.fuel, hsignals.fired, .inr ⟨entry, e.store, hinstance.of_eq rfl rfl,
        hinstance'.of_eq rfl rfl, hleft⟩⟩, replace_token? hn e.store, replace_token? hn' e.store⟩

theorem fireToken (h : s.Twins own script i j t) (token : Token) (ht : own token) :
    Outcome.Twin own script i j s t (.ok (s.fireToken token, .done)) (.ok (t.fireToken token, .done)) := by
  have hfired := h.fired token ht
  unfold Session.fireToken
  rw [← hfired]
  split
  · exact .ok ⟨rfl, h, rfl, rfl⟩
  · refine .ok ⟨rfl, ⟨h.fuel, fun other ho => ?_, ?_⟩, rfl, rfl⟩
    · simp only [List.contains_cons, h.fired other ho]
    · exact h.instances.imp id fun ⟨entry, store, hs, ht, hbears⟩ =>
        ⟨entry, store, hs.of_eq rfl rfl, ht.of_eq rfl rfl, hbears⟩

/-- Twins are used alike. -/
theorem step (h : s.Twins own script i j t) (use : InstanceUse)
    (htoken : ∀ name, use.token? = some name → t.token? name = s.token? name)
    (hown : ∀ name token, use.token? = some name → s.token? name = some token → own token) :
    Outcome.Twin own script i j s t (s.step (use.step i)) (t.step (use.step j)) := by
  cases use with
  | call argument called cancelAfter =>
    refine h.execute ?_ fun token ht => ?_
    · cases called with
      | none => rfl
      | some name => exact htoken name rfl
    · obtain ⟨name, rfl, ht⟩ := Option.bind_eq_some_iff.mp ht
      exact hown name token rfl ht
  | cancel name =>
    simp only [InstanceUse.step, Session.step, htoken name rfl]
    split
    · next token ht => exact h.fireToken token (hown name token rfl ht)
    · exact h.same _

theorem trace (h : s.Twins own script i j t) {uses : List InstanceUse}
    (htoken : ∀ use ∈ uses, ∀ name, use.token? = some name → t.token? name = s.token? name)
    (hown : ∀ use ∈ uses, ∀ name token, use.token? = some name → s.token? name = some token → own token) :
    s.trace (uses.map (·.step i)) = t.trace (uses.map (·.step j)) := by
  induction uses generalizing s t with
  | nil => rfl
  | cons use uses ih =>
    have hstep := h.step use (htoken use List.mem_cons_self) (hown use List.mem_cons_self)
    rw [List.map_cons, List.map_cons, Session.trace, Session.trace]
    generalize s.step (use.step i) = x at hstep ⊢
    generalize t.step (use.step j) = y at hstep ⊢
    cases hstep with
    | error stall => rfl
    | @ok x y hxy =>
      obtain ⟨u, a⟩ := x
      obtain ⟨v, _⟩ := y
      obtain ⟨rfl, htwins, hu, hv⟩ := hxy
      dsimp only at htwins hu hv ⊢
      rw [ih htwins]
      · intro use hm name hn
        rw [hu, hv]
        exact htoken use (List.mem_cons_of_mem _ hm) name hn
      · intro use hm name token hn ht
        rw [hu] at ht
        exact hown use (List.mem_cons_of_mem _ hm) name token hn ht

end Twins

/-- Under a name that was free, a new instance takes its place beside what there was. -/
theorem HasInstance.made {b : Nat} {boundary : Boundary} (hb : s.boundaries[b]? = some boundary)
    (hc : boundary.content = .active (.alone script)) (hn : s.handle? i = none) (entry : EntryPoint) (store : Store) :
    (s.add i (.running b entry store)).HasInstance i script entry store := by
  have hacquired : (boundary.acquire .context).content = .active (.alone script) := hc
  refine .intro (b := b) ?_ ?_ hacquired
  · rw [add_handle?, if_pos rfl]
  · have hfree : (s.acquire (.running b entry store)).handle? i = none := by
      rw [handle?, acquire_handles]
      exact hn
    rw [add, bind, drop, hfree]
    exact (List.getElem?_modify_eq ..).trans (congrArg (Option.map _) hb)

/-- Instances are twins that two sessions make of a script, if the script imports nothing. -/
theorem instantiate_twins {first late : String} {maxMemoryBytes : Option Nat} {entry : EntryPoint}
    (hs : s.HasEntry first script maxMemoryBytes entry) (ht : t.HasEntry late script maxMemoryBytes entry)
    (hi : s.handle? i = none) (hj : t.handle? j = none) (hfuel : t.fuel = s.fuel)
    (hfired : ∀ token, own token → s.fired.contains token = t.fired.contains token) :
    Outcome.Twin own script i j s t (s.instantiate first i) (t.instantiate late j) := by
  obtain @⟨b, boundary, hof, hb, hc, hm⟩ := hs
  obtain @⟨c, boundary', hof', hb', hc', hm'⟩ := ht
  have hboth := Boundary.instantiate_together own hc hc' (hm'.trans hm.symm) s.fuel
  unfold instantiate
  rw [hof, hof']
  dsimp only
  rw [hb, hb', hfuel]
  dsimp only
  generalize boundary.instantiate s.fuel = x at hboth ⊢
  generalize boundary'.instantiate s.fuel = y at hboth ⊢
  cases hboth with
  | error stall => exact .error stall
  | @ok x y hxy =>
    obtain ⟨made, r⟩ := x
    obtain ⟨made', _⟩ := y
    obtain ⟨rfl, rfl, rfl, hbears⟩ := hxy
    cases r with
    | error e =>
      dsimp only
      rw [update_self hb, update_self hb']
      exact .ok ⟨rfl, ⟨hfuel, hfired, .inl ⟨hi, hj⟩⟩, rfl, rfl⟩
    | ok store =>
      dsimp only
      rw [update_self hb, update_self hb']
      refine .ok ⟨rfl, ⟨?_, ?_, .inr ⟨entry, store, .made hb hc hi entry store, .made hb' hc' hj entry store,
        hbears store rfl⟩⟩, add_token? hi b entry store, add_token? hj c entry store⟩
      · rw [add_fuel, add_fuel, hfuel]
      · rw [add_fired, add_fired]
        exact hfired

/-- The tokens that uses are given are the same in two sessions, and have fired in both or in neither. -/
def SameTokens (uses : List InstanceUse) (s t : Session) : Prop :=
  ∀ use ∈ uses, ∀ name, use.token? = some name → t.token? name = s.token? name ∧
    ∀ token, s.token? name = some token → s.fired.contains token = t.fired.contains token

/-- Two instances of such a script that are made and used alike answer alike. -/
theorem trace_instantiate {first late : String} {maxMemoryBytes : Option Nat} {entry : EntryPoint}
    (hs : s.HasEntry first script maxMemoryBytes entry) (ht : t.HasEntry late script maxMemoryBytes entry)
    (hi : s.handle? i = none) (hj : t.handle? j = none) (hfuel : t.fuel = s.fuel) {uses : List InstanceUse}
    (hsame : s.SameTokens uses t) :
    s.trace (.instantiate first i :: uses.map (·.step i)) = t.trace (.instantiate late j :: uses.map (·.step j)) := by
  -- the tokens that count are those that the uses are given
  have hmade : Outcome.Twin (fun token => ∃ use ∈ uses, ∃ name, use.token? = some name ∧ s.token? name = some token)
      script i j s t (s.instantiate first i) (t.instantiate late j) :=
    instantiate_twins hs ht hi hj hfuel fun token ⟨use, hu, name, hn, htoken⟩ =>
      (hsame use hu name hn).2 token htoken
  rw [trace, trace]
  simp only [step]
  generalize s.instantiate first i = x at hmade ⊢
  generalize t.instantiate late j = y at hmade ⊢
  cases hmade with
  | error stall => rfl
  | @ok x y hxy =>
    obtain ⟨u, a⟩ := x
    obtain ⟨v, _⟩ := y
    obtain ⟨rfl, htwins, hu, hv⟩ := hxy
    dsimp only at htwins hu hv ⊢
    rw [htwins.trace]
    · intro use hm name hn
      rw [hu, hv]
      exact (hsame use hm name hn).1
    · intro use hm name token hn ht
      rw [hu] at ht
      exact ⟨use, hm, name, hn, ht⟩

end Session

end ComponentHost
