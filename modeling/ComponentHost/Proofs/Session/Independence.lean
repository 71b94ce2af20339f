import ComponentHost.Proofs.Session.Alone
import ComponentHost.Proofs.Session.Twins
import ComponentHost.Proofs.Session.Veil

/-! # Instances of scripts that import nothing

Such instances have nothing in common. A call of one changes its own store and fires its token, if the time for
that comes; so it can be left out as long as the token fires all the same. And an instance that is made late has the
store that one has which is made first. -/
set_option autoImplicit false

namespace ComponentHost

theorem Signals.ticks_fired (n : Nat) (signals : Signals) :
    (Signals.tick^[n] signals).fired = signals.fired ∨
      ∃ k token, signals.alarm = some (k, token) ∧ (Signals.tick^[n] signals).fired = token :: signals.fired := by
  induction n generalizing signals with
  | zero => exact .inl rfl
  | succ n ih =>
    obtain ⟨fired, alarm⟩ := signals
    rw [Function.iterate_succ_apply]
    rcases alarm with _ | ⟨_ | k, token⟩
    · exact ih ⟨fired, none⟩
    · rcases ih ⟨token :: fired, none⟩ with h | ⟨_, _, h, -⟩
      · exact .inr ⟨0, token, rfl, h⟩
      · cases h
    · rcases ih ⟨fired, some (k, token)⟩ with h | ⟨_, _, h, hf⟩
      · exact .inl h
      · cases h
        exact .inr ⟨k + 1, token, rfl, hf⟩

/-- A call fires its token or nothing, and the token had not fired before. -/
theorem Boundary.execute_fired_cases {b : Boundary} {fuel : Nat} {store : Store} {entry : EntryPoint}
    {argument : String} {token : Option Token} {fired : List Token} {cancelAfter : Option Nat} {e : Execution}
    (h : b.execute fuel store entry argument token ⟨fired, Session.alarm token cancelAfter⟩ = .ok e) :
    e.signals.fired = fired ∨
      ∃ own, token = some own ∧ fired.contains own = false ∧ e.signals.fired = own :: fired := by
  cases execute_cases h with
  | unloaded | cancelled | missing => exact .inl rfl
  | run _ hv hf =>
    obtain ⟨n, hn⟩ := Machine.invoke_signals hv
    rw [hn]
    rcases Signals.ticks_fired n ⟨fired, Session.alarm token cancelAfter⟩ with hsame | ⟨k, own, ha, hmore⟩
    · exact .inl hsame
    · have htoken : token = some own := by
        unfold Session.alarm at ha
        split at ha
        · cases ha
          rfl
        · cases ha
      refine .inr ⟨own, htoken, ?_, hmore⟩
      rw [htoken] at hf
      exact hf

namespace Session

variable {others : String → Bool} {b : Nat} {script : Component} {maxMemoryBytes : Option Nat} {s t u : Session}
  {op : SessionStep} {ops : List SessionStep} {a : SessionAnswer}

/-! ## Leaving calls out -/

/-- What remains of a step when the calls of other instances are left out: of such a call, the firing of its
token. -/
def remains (others : String → Bool) (b : Nat) (s : Session) (op : SessionStep) (t : Session) (a : SessionAnswer) :
    List (SessionStep × SessionAnswer) :=
  if s.callsOther others b op then
    match op with
    | .execute _ _ (some name) _ => if t.fired = s.fired then [] else [(.cancel name, .done)]
    | _ => []
  else [(op, a)]

/-- The steps of a run and their answers, without the calls of other instances. They stop where a step stalls. -/
def without (others : String → Bool) (b : Nat) (s : Session) : List SessionStep → List (SessionStep × SessionAnswer)
  | [] => []
  | op :: ops =>
    match s.step op with
    | .error _ => []
    | .ok (t, a) => s.remains others b op t a ++ t.without others b ops

theorem remains_of_own (h : s.callsOther others b op = false) : s.remains others b op t a = [(op, a)] := by
  unfold remains
  rw [h]
  rfl

theorem remains_of_same (h : s.callsOther others b op = true) (hf : t.fired = s.fired) :
    s.remains others b op t a = [] := by
  unfold remains
  rw [if_pos h]
  split
  · exact if_pos hf
  · rfl

theorem remains_of_fired {of argument name : String} {cancelAfter : Option Nat}
    (h : s.callsOther others b (.execute of argument (some name) cancelAfter) = true) (hf : t.fired ≠ s.fired) :
    s.remains others b (.execute of argument (some name) cancelAfter) t a = [(.cancel name, .done)] := by
  unfold remains
  rw [if_pos h]
  exact if_neg hf

theorem replace_seems {name : String} {entry : EntryPoint} {store store' : Store} (ho : others name = true) :
    (s.replace name (.running b entry store)).Seems others b (s.replace name (.running b entry store')) := by
  unfold Seems veil replace
  simp only [List.map_map, Session.mk.injEq, true_and, and_true]
  refine List.map_congr_left fun e _ => ?_
  simp only [Function.comp_apply]
  split
  · simp [Handle.veil]
  · rfl

/-- A call of another instance changes nothing that is seen but the tokens that have fired. -/
theorem callsOther_seems (hk : s.Kept []) (hs : s.Upholds Law.alone) (ho : s.Offers b script maxMemoryBytes)
    (hi : script.imports = []) (hc : s.callsOther others b op = true) (h : s.step op = .ok (t, a)) :
    t.Seems others b { s with fired := t.fired } ∧ (t.fired = s.fired ∨
      ∃ of argument name token cancelAfter, op = .execute of argument (some name) cancelAfter ∧
        s.token? name = some token ∧ s.fired.contains token = false ∧ t.fired = token :: s.fired) := by
  cases op with
  | execute of argument called cancelAfter =>
    unfold callsOther at hc
    dsimp only at hc
    split at hc
    · next c entry store hof =>
      obtain ⟨hothers, hb⟩ := (Bool.and_eq_true _ _).mp hc
      cases eq_of_beq hb
      obtain ⟨boundary, hboundary, -, halone⟩ := ho.alone hs hi
      simp only [step] at h
      rw [execute_running hof hboundary] at h
      split at h
      · cases h
      · next e he =>
        cases h
        rw [Boundary.execute_of_alone halone he, update_self hboundary]
        refine ⟨?_, ?_⟩
        · have hsame : (s.replace of (.running b entry e.store)).Seems others b
              (s.replace of (.running b entry store)) := replace_seems hothers
          rw [replace_self hk hof] at hsame
          exact hsame.of_fired e.signals.fired
        · rcases Boundary.execute_fired_cases he with hsame | ⟨token, htoken, hnot, hmore⟩
          · exact .inl hsame
          · obtain ⟨name, rfl, htoken⟩ := Option.bind_eq_some_iff.mp htoken
            exact .inr ⟨of, argument, name, token, cancelAfter, rfl, htoken, hnot, hmore⟩
    · cases hc
  | _ => cases hc

/-- A run goes on in the same way without the calls of other instances. -/
theorem trace_without (hk : s.Kept []) (hs : s.Upholds Law.alone) (ho : s.Offers b script maxMemoryBytes)
    (hi : script.imports = []) (h : s.Seems others b u) (ops : List SessionStep) :
    u.trace ((s.without others b ops).map Prod.fst) = .ok ((s.without others b ops).map Prod.snd) := by
  induction ops generalizing s u with
  | nil => rfl
  | cons op ops ih =>
    unfold without
    cases hstep : s.step op with
    | error stall => rfl
    | ok x =>
      obtain ⟨t, a⟩ := x
      dsimp only
      have hrest := fun {v : Session} (hv : t.Seems others b v) =>
        ih (hk.step hstep) (hs.step Law.alone_stable hk hstep) (ho.step hk hstep) hv
      cases hc : s.callsOther others b op with
      | false =>
        have hboth := h.step hc
        rw [hstep] at hboth
        generalize hu : u.step op = taken at hboth
        cases hboth with
        | @ok _ y hy =>
          obtain ⟨v, a'⟩ := y
          obtain ⟨rfl, hv⟩ := hy
          rw [remains_of_own hc, List.singleton_append, List.map_cons, List.map_cons, trace, hu]
          dsimp only
          rw [hrest hv]
          rfl
      | true =>
        -- the call is seen in nothing but the token that it may fire, and so is the step that fires it
        obtain ⟨hsame, hfired⟩ := callsOther_seems hk hs ho hi hc hstep
        rcases hfired with hf | ⟨of, argument, name, token, cancelAfter, rfl, htoken, hnot, hf⟩
        · rw [remains_of_same hc hf, List.nil_append]
          rw [hf] at hsame
          exact hrest (hsame.trans h)
        · have hne : t.fired ≠ s.fired := by
            rw [hf]
            exact List.cons_ne_self _ _
          have hu : u.step (.cancel name) = .ok ({ u with fired := t.fired }, .done) := by
            simp only [step, h.token?, htoken]
            unfold fireToken
            rw [h.fired, hnot, hf]
            rfl
          rw [remains_of_fired hc hne, List.singleton_append, List.map_cons, List.map_cons, trace, hu]
          dsimp only
          rw [hrest (hsame.trans (h.of_fired t.fired))]
          rfl

/-! ## Independence -/

/-- An entry point of a boundary is one of the script that the boundary offers, as long as it is active. -/
theorem Offers.hasEntry {name : String} {entry : EntryPoint} (ho : s.Offers b script maxMemoryBytes)
    (hs : s.Upholds Law.alone) (hi : script.imports = []) (ha : s.lifecycle? b = some .active)
    (hn : s.handle? name = some (.entry b entry)) : s.HasEntry name script maxMemoryBytes entry := by
  obtain ⟨boundary, hb, hm, halone⟩ := ho.alone hs hi
  rw [lifecycle?, hb, Option.map_some, Option.some.injEq] at ha
  have hloaded : ∃ linked, boundary.content = .active linked := by
    by_contra hno
    exact Boundary.lifecycle_ne_active_iff.mpr (not_exists.mp hno) ha
  obtain ⟨linked, hc⟩ := hloaded
  exact .intro hn hb (hc.trans (congrArg _ (halone linked hc))) hm

/-- Instances of a script that imports nothing are independent. A run goes on in the same way when the calls of
others among them are left out, as long as the tokens fire that fired in these calls. And however two runs go on
from here, an instance that is made behind the one and then used answers like an instance that is made behind the
other and used in the same way, with tokens that have fired behind both or behind neither. -/
theorem instances_independent {fs : FileSystem} {fuel : Nat} {before : List SessionStep} {boundary : Boundary}
    {linked : Linked} (h : (start fs fuel).run before = .ok s) (hb : s.boundaries[b]? = some boundary)
    (hc : boundary.content = .active linked) (hi : linked.script.imports = []) :
    (∀ others ops, s.trace ((s.without others b ops).map Prod.fst) = .ok ((s.without others b ops).map Prod.snd)) ∧
    ∀ ops ops' t u first late i j entry uses, s.run ops = .ok t → s.run ops' = .ok u →
      t.lifecycle? b = some .active → u.lifecycle? b = some .active →
      t.handle? first = some (.entry b entry) → u.handle? late = some (.entry b entry) →
      t.handle? i = none → u.handle? j = none → t.SameTokens uses u →
      t.trace (.instantiate first i :: uses.map (·.step i)) = u.trace (.instantiate late j :: uses.map (·.step j)) := by
  have hk := (start_kept fs fuel).run h
  have hs := upholds_of_run Law.alone_stable h
  have ho : s.Offers b linked.script boundary.maxMemoryBytes :=
    ⟨boundary, hb, rfl, fun _ hl => congrArg Linked.script (Content.active.inj (hl.symm.trans hc))⟩
  refine ⟨fun others ops => trace_without hk hs ho hi (.refl s) ops, ?_⟩
  intro ops ops' t u first late i j entry uses ht hu hactive hactive' hfirst hlate hfree hfree' htokens
  have hentry := (ho.run hk ht).hasEntry (hs.run Law.alone_stable hk ht) hi hactive hfirst
  have hentry' := (ho.run hk hu).hasEntry (hs.run Law.alone_stable hk hu) hi hactive' hlate
  exact trace_instantiate hentry hentry' hfree hfree' ((run_fuel hu).trans (run_fuel ht).symm) htokens

/-! ## Two instances that are called in turn -/

/-- The entry point that a name stands for, with the number of its boundary. -/
def entry? (s : Session) (name : String) : Option (Nat × EntryPoint) :=
  match s.handle? name with
  | some (.entry b entry) => some (b, entry)
  | _ => none

theorem of_entry? {name : String} {entry : EntryPoint} (h : s.entry? name = some (b, entry)) :
    s.handle? name = some (.entry b entry) := by
  unfold entry? at h
  split at h
  · next hn =>
    cases h
    exact hn
  · cases h

/-- An instance can be made under a name that is free, and there is a token that has not fired. -/
def isReady (s : Session) : Bool :=
  s.lifecycle? 0 == some .active && s.entry? "e" == some (0, ⟨"e", "execute"⟩) && (s.handle? "new").isNone &&
    s.token? "v" == some ⟨1⟩ && !s.fired.contains ⟨1⟩

theorem of_isReady (h : s.isReady = true) :
    s.lifecycle? 0 = some .active ∧ s.handle? "e" = some (.entry 0 ⟨"e", "execute"⟩) ∧ s.handle? "new" = none ∧
      s.token? "v" = some ⟨1⟩ ∧ s.fired.contains ⟨1⟩ = false := by
  simp only [isReady, Bool.and_eq_true, beq_iff_eq, Option.isNone_iff_eq_none, Bool.not_eq_true'] at h
  obtain ⟨⟨⟨⟨hactive, hentry⟩, hfree⟩, htoken⟩, hfired⟩ := h
  exact ⟨hactive, of_entry? hentry, hfree, htoken, hfired⟩

def makeTwo : List SessionStep :=
  [.resolve "c.module" "e" .standard, .token "t", .token "v", .instantiate "e" "i", .instantiate "e" "k"]

/-- Each of the two instances is called two times. The first call of one of them is cancelled while it runs. -/
def callTwo : List SessionStep :=
  [.execute "i" "" none none, .execute "k" "" (some "t") (some 0), .execute "i" "" none none, .execute "k" "" none none]

/-- What is done with a new instance: two calls, the second with a token that has been fired. -/
def useNew : List InstanceUse := [.call "" none none, .cancel "v", .call "" (some "v") none]

theorem sameTokens_of_isReady (hs : s.isReady = true) (ht : t.isReady = true) : s.SameTokens useNew t := by
  obtain ⟨-, -, -, htoken, hfired⟩ := of_isReady hs
  obtain ⟨-, -, -, htoken', hfired'⟩ := of_isReady ht
  have hnames : ∀ use ∈ useNew, ∀ name, use.token? = some name → name = "v" := by simp [useNew, InstanceUse.token?]
  intro use huse name hname
  cases hnames use huse name hname
  refine ⟨htoken'.trans htoken.symm, fun token ht => ?_⟩
  cases htoken.symm.trans ht
  exact hfired.trans hfired'.symm

theorem exists_called_two :
    ∃ s, (start bareFiles 1000).run (loadOnce ++ makeTwo) = .ok s ∧
      (∃ linked ∈ s.linked? 0, linked.script.imports = []) ∧
      s.isReady = true ∧ (∃ u ∈ (s.run callTwo).toOption, u.isReady = true) ∧
      texts ((s.without (· == "k") 0 callTwo).map Prod.snd) = [some "", none] :=
  exists_once <| by
    rw [onceText, String.toList_ofList]
    decide +kernel

/-- Whatever is done with another instance, the first call of an instance returns and the second one traps. And an
instance that is made behind all these calls answers like one that is made before them. -/
theorem two_instances_independent :
    ∃ s u kept, (start bareFiles 1000).run (loadOnce ++ makeTwo) = .ok s ∧ s.run callTwo = .ok u ∧
      s.without (· == "k") 0 callTwo = kept ∧ texts (kept.map Prod.snd) = [some "", none] ∧
      s.trace (kept.map Prod.fst) = .ok (kept.map Prod.snd) ∧
      s.trace (.instantiate "e" "new" :: useNew.map (·.step "new")) =
        u.trace (.instantiate "e" "new" :: useNew.map (·.step "new")) := by
  obtain ⟨s, hrun, ⟨linked, hlinked, hi⟩, hs, ⟨u, hu, hu'⟩, htexts⟩ := exists_called_two
  obtain ⟨boundary, hb, hc⟩ := of_linked? hlinked
  obtain ⟨hactive, hentry, hfree, -⟩ := of_isReady hs
  obtain ⟨hactive', hentry', hfree', -⟩ := of_isReady hu'
  have hcalled : s.run callTwo = .ok u := ok_of_toOption hu
  obtain ⟨hwithout, hlate⟩ := instances_independent hrun hb hc hi
  have hsame := hlate [] callTwo s u "e" "e" "new" "new" _ useNew rfl hcalled hactive hactive' hentry hentry' hfree
    hfree' (sameTokens_of_isReady hs hu')
  exact ⟨s, u, _, hrun, hcalled, rfl, htexts, hwithout _ _, hsame⟩

end Session

end ComponentHost
