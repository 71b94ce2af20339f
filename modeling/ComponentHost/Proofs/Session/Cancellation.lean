import ComponentHost.Proofs.Machine.Custody
import ComponentHost.Proofs.Session.Firing
import ComponentHost.Proofs.Session.Nesting
import ComponentHost.Proofs.Session.Refusal

/-! # Cancelling calls

Between the steps of a session no store has a token, and while a call goes on its token is in the stores that
the call has got to. So a token cancels the calls that are made with it and nothing else; and where it has
fired before, the call does not start. -/
set_option autoImplicit false

namespace ComponentHost

/-! ## Boundaries without tokens -/

/-- That no store has a token between calls, as a law for sessions. It takes stores that are in order. -/
def Law.custody : Law where
  boundary := fun b => b.InOrder ∧ b.Bears fun _ => False
  entry := fun _ _ => True
  running := fun b _ store => b.Serves store ∧ store.token = none

namespace Boundary

variable {b b' : Boundary} {fuel : Nat} {store : Store} {entry : EntryPoint} {argument : String}
  {token : Option Token} {signals : Signals}

/-- Whatever a call comes to, it leaves no token in a store. -/
theorem execute_idle {e : Execution} (ho : b.InOrder) (hb : b.Bears fun _ => False) (hl : b.Serves store)
    (hs : store.token = none) (h : b.execute fuel store entry argument token signals = .ok e) :
    (e.boundary.Bears fun _ => False) ∧ e.store.token = none := by
  cases execute_cases h with
  | unloaded | cancelled | missing => exact ⟨hb, hs⟩
  | run hc hv =>
    obtain ⟨types, hr⟩ := store.exists_receive_serves entry.interface entry.function [.string argument] 1
      token
    have hproviders := fun p hp => Store.bears_nothing.mp (hb _ hc p hp)
    obtain ⟨hstore, hleft⟩ := (Machine.invoke_serves (ho _ hc).providers (hl _ hc) hproviders hs hr hv).1
    exact ⟨withProviders_bears fun p hp => Store.bears_nothing.mpr (hleft p hp), hstore⟩

/-- A call with a token that has fired does not start. -/
theorem execute_fired (hn : b.lifecycle = .active) {fired : Token} (ht : token = some fired)
    (hf : signals.hasFired fired = true) :
    b.execute fuel store entry argument token signals = .ok ⟨b, store, signals, .error .cancelled⟩ := by
  unfold execute
  split
  · rw [ht, Option.any_some, if_pos hf]
  · next hc =>
    refine absurd hn (lifecycle_ne_active_iff.mpr ?_)
    exact hc

end Boundary

theorem Law.custody_stable : Law.custody.Stable where
  fades := fun {b b'} h => {
    boundary := fun hb => ⟨h.keepsLinks.inOrder hb.1, fun linked hc => hb.2 linked (h.active hc)⟩
    entry := fun _ hentry => hentry
    running := fun _ _ hs => ⟨h.keepsLinks.serves hs.1, hs.2⟩ }
  load := fun h => ⟨Boundary.load_inOrder h, Boundary.load_bears h⟩
  resolve := fun _ _ => trivial
  instantiate := by
    intro b b' fuel entry r hb _ hi
    obtain ⟨hkeeps, hserves⟩ := Boundary.instantiate_keepsLinks hb.1 hi
    obtain ⟨hbears, hstore⟩ := Boundary.instantiate_bears hb.2 hi
    refine ⟨⟨fun _ => ⟨hkeeps.inOrder hb.1, hbears⟩, fun _ hentry => hentry,
      fun _ _ hs => ⟨hkeeps.serves hs.1, hs.2⟩⟩, fun store hr => ?_⟩
    exact ⟨hkeeps.serves (hserves store hr), Store.bears_nothing.mp (hstore store hr)⟩
  execute := by
    intro b fuel store entry argument token signals e hb hs he
    obtain ⟨hkeeps, hlinks⟩ := Boundary.execute_keepsLinks he
    obtain ⟨hbears, hstore⟩ := Boundary.execute_idle hb.1 hb.2 hs.1 hs.2 he
    refine ⟨⟨fun _ => ⟨hkeeps.inOrder hb.1, hbears⟩, fun _ hentry => hentry,
      fun _ _ hs => ⟨hkeeps.serves hs.1, hs.2⟩⟩, fun linked hc => ?_, hstore⟩
    rw [hlinks]
    exact hkeeps.serves hs.1 linked hc

/-- While the providers of a script are made, no store has a token. -/
theorem Linked.Stage.idle {fuel : Nat} {sources : Sources} {maxMemoryBytes : Option Nat}
    {script : Component} {start : Next} {m : Machine} (hs : Stage fuel sources maxMemoryBytes script start)
    (hm : start.Passes m) : m.Idle := by
  obtain ⟨before, p, after, stores, -, hi, rfl⟩ := hs
  have hbears : ∀ s ∈ stores, s.Bears fun _ => False := instantiateAll_bears hi
  exact Machine.making_idle (fun p hp => Store.bears_nothing.mp (hbears p hp)) rfl hm

namespace Session

variable {s t : Session} {a : SessionAnswer} {token : Token}

theorem Upholds.idle (hs : s.Upholds Law.custody) (hk : s.Kept []) : s.Idle where
  providers := fun b boundary linked hb hc p hp =>
    Store.bears_nothing.mp ((hs.boundaries b boundary hb).2 linked hc p hp)
  running := fun _ b _ _ hm =>
    have hget := List.getElem?_eq_getElem (hk.placed _ hm b rfl)
    (hs.handles _ hm b _ rfl hget).2

/-! ## While something runs -/

/-- The runs that make an instance through an entry point of the session. -/
inductive Makes (s : Session) : Next → Prop where
  | intro {of : String} {b : Nat} {entry : EntryPoint} {boundary : Boundary} {linked : Linked}
      (hof : s.handle? of = some (.entry b entry)) (hb : s.boundaries[b]? = some boundary)
      (hc : boundary.content = .active linked) :
      Makes s (Machine.making linked.providers
        (.fresh linked.script boundary.maxMemoryBytes linked.links))

/-- The runs that call an instance of the session with a token. -/
inductive Calls (s : Session) (token : Option Token) : Next → Prop where
  | intro {of : String} {b : Nat} {entry : EntryPoint} {store : Store} {boundary : Boundary}
      {linked : Linked} (hof : s.handle? of = some (.running b entry store))
      (hb : s.boundaries[b]? = some boundary) (hc : boundary.content = .active linked)
      (argument : String) (signals : Signals) :
      Calls s token (Machine.calling linked.providers store signals entry.interface entry.function
        [.string argument] 1 token)

theorem Makes.idle (hs : s.Upholds Law.custody) {start : Next} (h : s.Makes start) {m : Machine}
    (hm : start.Passes m) : m.Idle := by
  obtain ⟨-, hb, hc⟩ := h
  have hbears := (hs.boundaries _ _ hb).2 _ hc
  exact Machine.making_idle (fun p hp => Store.bears_nothing.mp (hbears p hp)) rfl hm

theorem Calls.carries (hs : s.Upholds Law.custody) {token : Option Token} {start : Next}
    (h : s.Calls token start) {m : Machine} (hm : start.Passes m) : m.Carries token := by
  obtain ⟨hof, hb, hc, argument, signals⟩ := h
  obtain ⟨horder, hbears⟩ := hs.boundaries _ _ hb
  obtain ⟨hserves, htoken⟩ := hs.handles _ (mem_of_handle? hof) _ _ rfl hb
  exact Machine.calling_carries (horder _ hc).providers (hserves _ hc)
    (fun p hp => Store.bears_nothing.mp (hbears _ hc p hp)) htoken hm

/-! ## Tokens that have fired -/

/-- A step that calls an instance with a token that has fired, when its boundary was not unloaded. -/
inductive CallsFired (s : Session) : SessionStep → Prop where
  | intro {of name : String} {b : Nat} {entry : EntryPoint} {store : Store} {boundary : Boundary}
      {token : Token} (hof : s.handle? of = some (.running b entry store))
      (hb : s.boundaries[b]? = some boundary) (hn : boundary.lifecycle ≠ .unloadRequested)
      (ht : s.token? name = some token) (hf : s.fired.contains token = true) (argument : String)
      (cancelAfter : Option Nat) : CallsFired s (.execute of argument (some name) cancelAfter)

/-- Such a call is cancelled, and that is all. -/
theorem CallsFired.cancelled (hk : s.Kept []) {op : SessionStep} (h : s.CallsFired op) :
    s.step op = .ok (s, .executed (.error .cancelled)) := by
  obtain @⟨of, name, b, entry, store, boundary, token, hof, hb, hn, ht, hf, argument, cancelAfter⟩ := h
  obtain ⟨loaded, hb', hloaded⟩ := Uses.loaded hk (.execute argument none none hof)
  cases hb'.symm.trans hb
  have hactive : boundary.lifecycle = .active := by
    cases hl : boundary.lifecycle with
    | active => rfl
    | created => exact absurd hl hloaded
    | unloadRequested => exact absurd hl hn
  have hcalled : (some name).bind s.token? = some token := ht
  have hf' : (Signals.mk s.fired (alarm ((some name).bind s.token?) cancelAfter)).hasFired token = true := hf
  simp only [step]
  rw [execute_running hof hb, Boundary.execute_fired hactive hcalled hf']
  dsimp only
  rw [update_self hb, replace_self hk hof]

theorem CallsFired.withFuel {op : SessionStep} (h : s.CallsFired op) (n : Nat) :
    { s with fuel := n }.CallsFired op := by
  obtain ⟨hof, hb, hn, ht, hf, argument, cancelAfter⟩ := h
  exact CallsFired.intro (s := { s with fuel := n }) hof hb hn ht hf argument cancelAfter

/-- Tokens reach the calls that they are given to and do not outlive them. After every run no store has a
token, nor has one while instances are made. While an instance is called with a token, the stores of the
calls that are still in the function that they call have just that token, and none other has one. A token
that has fired changes no answer to steps that are not given it; and a call that is given it, on a boundary
that was not unloaded, is cancelled and changes nothing, even when no step of the machine may be taken. -/
theorem tokens_stay_with_calls {fs : FileSystem} {fuel : Nat} {ops : List SessionStep}
    (h : (start fs fuel).run ops = .ok s) :
    s.Idle ∧
    (∀ fuel sources maxMemoryBytes script start m,
      Linked.Stage fuel sources maxMemoryBytes script start ∨ s.Makes start → start.Passes m → m.Idle) ∧
    (∀ token start m, s.Calls token start → start.Passes m → m.Carries token) ∧
    (∀ token more, s.Spares token more → (s.fireToken token).trace more = s.trace more) ∧
    ∀ op n, s.CallsFired op →
      { s with fuel := n }.step op = .ok ({ s with fuel := n }, .executed (.error .cancelled)) := by
  have hk := (start_kept fs fuel).run h
  have hs := upholds_of_run Law.custody_stable h
  refine ⟨hs.idle hk, ?_, fun token start m hc hm => hc.carries hs hm, fun token more hspares => ?_,
    fun op n hc => ?_⟩
  · rintro fuel sources maxMemoryBytes script start m (hstage | hmakes) hm
    · exact hstage.idle hm
    · exact hmakes.idle hs hm
  · refine (s.fireToken_alikeBut token).trace (fun before t _ hr => ?_) hspares
    exact (hs.run Law.custody_stable hk hr).idle (hk.run hr)
  · have hn : { s with fuel := n }.Kept [] := ⟨hk.names, hk.accounted⟩
    exact (hc.withFuel n).cancelled hn

/-! ## A token that fires behind its call -/

theorem calls_of_callOf? {of : String} {token : Option Token} {signals : Signals} {start : Next}
    (h : s.callOf? of token signals = some start) : s.Calls token start := by
  obtain ⟨b, entry, store, boundary, linked, hof, hb, hc, rfl⟩ := callOf?_cases h
  exact .intro hof hb hc "" signals

/-- The start of the making of an instance through an entry point. -/
def makingOf? (s : Session) (of : String) : Option Next :=
  match s.handle? of with
  | some (.entry b _) => (s.boundaries[b]?).bind fun boundary => (s.linked? b).map fun linked =>
    Machine.making linked.providers (.fresh linked.script boundary.maxMemoryBytes linked.links)
  | _ => none

theorem makes_of_makingOf? {of : String} {start : Next} (h : s.makingOf? of = some start) : s.Makes start := by
  unfold makingOf? at h
  split at h
  · next b entry hof =>
    obtain ⟨boundary, hb, h⟩ := Option.bind_eq_some_iff.mp h
    obtain ⟨linked, hl, rfl⟩ := Option.map_eq_some_iff.mp h
    obtain ⟨boundary', hb', hc⟩ := of_linked? hl
    cases hb'.symm.trans hb
    exact .intro hof hb hc
  · cases h

/-- Whether an instance can be called with a token, as far as the boundary goes. -/
def canCall (s : Session) (of name : String) : Bool :=
  match s.handle? of, s.token? name with
  | some (.running b _ _), some _ => (s.linked? b).isSome
  | _, _ => false

theorem callsFired_of_canCall {of name : String} (h : s.canCall of name = true) (ht : s.token? name = some token) :
    (s.fireToken token).CallsFired (.execute of "" (some name) none) := by
  have hf : (s.fireToken token).fired.contains token = true := by
    unfold fireToken
    split
    · assumption
    · simp
  unfold canCall at h
  split at h
  · next b entry store _ hof _ =>
    obtain ⟨linked, hl⟩ := Option.isSome_iff_exists.mp h
    obtain ⟨boundary, hb, hc⟩ := of_linked? hl
    have hn : boundary.lifecycle ≠ .unloadRequested := by simp [Boundary.lifecycle, Content.lifecycle, hc]
    have hkept : (s.fireToken token).handles = s.handles ∧ (s.fireToken token).boundaries = s.boundaries := by
      unfold fireToken
      split <;> exact ⟨rfl, rfl⟩
    have hhandle : ∀ name, (s.fireToken token).handle? name = s.handle? name := fun name => by
      rw [handle?, handle?, hkept.1]
    refine .intro ((hhandle of).trans hof) (hkept.2 ▸ hb) hn ?_ hf "" none
    rw [token?, hhandle, ← token?]
    exact ht
  · cases h

/-- Calls an instance with the token. -/
def callFirst : SessionStep := .execute "i" "" (some "t") none

/-- Makes another instance and calls it. -/
def callOther : List SessionStep := [.instantiate "e" "new", .execute "new" "" none none]

theorem exists_called_first :
    ∃ s, (start (pairFiles providerText) 1000).run (loadPair ++ (makePair ++ [callFirst])) = .ok s ∧
      s.token? "t" = some ⟨0⟩ ∧ s.canCall "j" "t" = true ∧
      (∃ start ∈ s.makingOf? "e", ∃ m ∈ start.moreAfter? 0, m.chain = [1]) ∧
      (∃ start ∈ s.callOf? "i" (some ⟨0⟩) .quiet, ∃ m ∈ start.moreAfter? 20,
        m.chain = [0, 1] ∧ m.calls.all (·.thread.isCalling) = true) ∧
      ∃ answers ∈ (s.trace callOther).toOption, texts answers = [some ""] :=
  exists_pair plain_provider <| by
    rw [callerText, providerText, String.toList_ofList, String.toList_ofList]
    decide +kernel

/-- A script is called with a token. As long as it runs, both it and what it calls have the token. When the call has
returned and the token fires, a new instance is made and called as if it had not, and another instance cannot be called
with it. -/
theorem fired_token_unseen :
    let late : SessionStep := .execute "j" "" (some "t") none
    ∃ s u answers, (start (pairFiles providerText) 1000).run (loadPair ++ (makePair ++ [callFirst])) = .ok s ∧ s.Idle ∧
      (∃ start m, s.Makes start ∧ start.Passes m ∧ m.Idle) ∧
      (∃ start m, s.Calls (some ⟨0⟩) start ∧ start.Passes m ∧ m.Carries (some ⟨0⟩) ∧ m.chain = [0, 1] ∧
        ∀ call ∈ m.calls, call.thread.isCalling = true) ∧
      s.Spares ⟨0⟩ callOther ∧ (s.fireToken ⟨0⟩).trace callOther = .ok answers ∧ texts answers = [some ""] ∧
      s.run [.cancel "t"] = .ok u ∧ u.CallsFired late ∧
        { u with fuel := 0 }.step late = .ok ({ u with fuel := 0 }, .executed (.error .cancelled)) := by
  intro late
  obtain ⟨s, hrun, htoken, hcan, ⟨making, hmaking, made, hmade, -⟩, ⟨calling, hcalling, m, hm, hchain, hinside⟩,
    answers, ha, htexts⟩ := exists_called_first
  have hmakes := makes_of_makingOf? hmaking
  have hcalls := calls_of_callOf? hcalling
  have hpasses := Next.passes_of_moreAfter? hm
  have hspares : s.Spares ⟨0⟩ callOther := ⟨id, fun _ _ _ => ⟨nofun, fun _ _ _ => trivial⟩⟩
  obtain ⟨hidle, hmaking, hcalling, hsame, -⟩ := tokens_stay_with_calls hrun
  have hcancel : s.run [.cancel "t"] = .ok (s.fireToken ⟨0⟩) := by
    rw [run, step, htoken]
    rfl
  have hfired := (run_append hrun [.cancel "t"]).trans hcancel
  have hlate : (s.fireToken ⟨0⟩).CallsFired late := callsFired_of_canCall hcan htoken
  obtain ⟨-, -, -, -, hcancelled⟩ := tokens_stay_with_calls hfired
  refine ⟨s, s.fireToken ⟨0⟩, answers, hrun, hidle, ?_, ?_, hspares, ?_, htexts, hcancel, hlate,
    hcancelled late 0 hlate⟩
  · exact ⟨_, made, hmakes, Next.passes_of_moreAfter? hmade,
      hmaking 0 ⟨bareFiles, ⟨⟨"/"⟩, []⟩, []⟩ none .empty _ made (.inr hmakes) (Next.passes_of_moreAfter? hmade)⟩
  · exact ⟨_, m, hcalls, hpasses, hcalling _ _ m hcalls hpasses, hchain, List.all_eq_true.mp hinside⟩
  · exact (hsame ⟨0⟩ callOther hspares).trans (ok_of_toOption ha)

end Session

end ComponentHost
