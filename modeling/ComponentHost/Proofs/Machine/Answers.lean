import ComponentHost.Proofs.Machine.Placing
import ComponentHost.Proofs.Machine.Requests

/-! # Calls that are made for requests

Every call inside the first one was made for a request of the call around it, which waits for its answer. If
the provider offers the function that is asked for, the arguments of the call have the types of the function,
and its answer will; so nothing in it is of a wrong type, whatever becomes of the requests that it makes. -/
set_option autoImplicit false

namespace ComponentHost

namespace Machine

/-! ## Requests that are under way -/

/-- Something goes on inside these calls, which wait. -/
def IsInside (m : Machine) (waiting : List Call) : Prop := ∃ inner, inner ≠ [] ∧ m.calls = inner ++ waiting

/-- Something has gone on inside these calls since a machine took a step. -/
inductive Lasts (waiting : List Call) (asker : Machine) : Machine → Prop where
  | begins {m : Machine} (hs : asker.step = .more m) (hi : m.IsInside waiting) : Lasts waiting asker m
  | goes {m m' : Machine} (h : Lasts waiting asker m) (hs : m.step = .more m') (hi : m'.IsInside waiting) :
      Lasts waiting asker m'

end Machine

/-- The calls that wait for the answer to a request. -/
def Request.waits (r : Request) : List Call := ⟨r.caller, r.waiting⟩ :: r.outer

/-- A machine of a run is inside a call that was made for a request. -/
def Next.Made (start : Next) (m : Machine) (r : Request) : Prop :=
  ∃ asker, start.Passes asker ∧ asker.Requests r ∧ Machine.Lasts r.waits asker m

/-- A machine of a run is about the answer to a request: the values have just come to who waits for them, or are
being placed for what waits behind them. -/
inductive Next.Answered (start : Next) (r : Request) : Machine → Prop where
  | comes {before m : Machine} {values : List Value} (hr : start.Made before r) (hs : before.step = .more m)
      (hm : m.calls = ⟨r.caller, { r.waiting with activity := .values values }⟩ :: r.outer) : Answered start r m
  | goes {m m' : Machine} {thread : Thread} {inner : List Pending} {p : Placement} (h : Answered start r m)
      (hs : m.step = .more m') (hm : m'.calls = ⟨r.caller, thread⟩ :: r.outer)
      (hw : thread.waits = inner ++ .placing p :: r.waiting.waits.tail) : Answered start r m'

/-- The answer to a request comes to a thread that has waited for it. -/
theorem Next.Answered.awaits {start : Next} {r : Request} {m : Machine} (h : start.Answered r m) :
    ∃ args, r.waiting.Awaits r.type args := by
  induction h with
  | comes hr =>
    obtain ⟨asker, -, hrequests, -⟩ := hr
    obtain ⟨-, args, -, hawaits⟩ := hrequests.asks
    exact ⟨args, hawaits⟩
  | goes _ _ _ _ ih => exact ih

namespace Machine

/-- The request that a machine is busy with: it makes it, or goes on with the call that was made for it and
places nothing in it but the arguments, or takes its answer. -/
inductive Handles (m : Machine) (start : Next) (r : Request) : Prop where
  | asked (h : m.Requests r)
  | underway {thread : Thread} (hn : ∀ r', ¬ m.Requests r') (hv : ∀ values, thread.activity ≠ .values values)
      (ha : thread.Within Pending.IsArgument) (hr : start.Made m r) (hm : m.calls = ⟨r.provider, thread⟩ :: r.waits)
  | answered (hn : ∀ r', ¬ m.Requests r') (h : start.Answered r m)

/-- Calls under way: each but the first was made for a request that is known, and where the function is offered,
its arguments have their types and its results will. -/
inductive Minds (known : Request → Prop) (m : Machine) : List Call → Prop where
  | first {call : Call} (ha : call.thread.Within Pending.IsArgument) (hf : call.thread.Within Pending.Fits) :
      Minds known m [call]
  | inside {r : Request} {thread : Thread} (hr : known r) (ha : thread.Within Pending.IsArgument)
      (hf : m.Offers r → thread.Within Pending.Fits ∧ ∃ token, m.ServesCall r.type.results token ⟨r.provider, thread⟩)
      (ho : Minds known m r.waits) : Minds known m (⟨r.provider, thread⟩ :: r.waits)

variable {m m' asker : Machine} {start : Next} {r : Request} {known known' : Request → Prop} {site : Nat}
  {store : Store} {call : Call} {thread thread' : Thread} {outer calls : List Call}

namespace Minds

theorem mono (h : m.Minds known calls)
    (hk : ∀ r inner, known r → inner ≠ [] → calls = inner ++ r.waits → known' r) : m.Minds known' calls := by
  induction h with
  | first ha hf => exact .first ha hf
  | @inside r thread hr ha hf _ ih =>
    refine .inside (hk r [⟨r.provider, thread⟩] hr (List.cons_ne_nil _ _) rfl) ha hf
      (ih fun r' inner hr' hne he => ?_)
    exact hk r' (⟨r.provider, thread⟩ :: inner) hr' (List.cons_ne_nil _ _) (by rw [he, List.cons_append])

/-- Calls whose stores are as they were mind what they minded. -/
theorem keep (h : m.Minds known calls) (hw : m'.wiring = m.wiring)
    (he : ∀ call ∈ calls, m'.store call.site = m.store call.site) : m'.Minds known calls := by
  induction h with
  | first ha hf => exact .first ha hf
  | @inside r thread hr ha hf _ ih =>
    obtain ⟨hfirst, hrest⟩ := List.forall_mem_cons.mp he
    refine .inside hr ha (fun hoffers => ?_) (ih hrest)
    obtain ⟨hfits, token, hserves⟩ := hf ((offers_of_wiring hw).mp hoffers)
    exact ⟨hfits, token, hserves.of_store hfirst⟩

/-- The innermost call goes on, and the others are as they were. -/
theorem goes (h : m.Minds known (⟨site, thread⟩ :: outer)) (hw : m'.wiring = m.wiring)
    (ho : ∀ call ∈ outer, m'.store call.site = m.store call.site)
    (hp : ∀ {P : Pending → List Pending → Prop}, Pending.Closed P → thread.Within P → thread'.Within P)
    (hs : ∀ types token, m.ServesCall types token ⟨site, thread⟩ → m'.ServesCall types token ⟨site, thread'⟩) :
    m'.Minds known (⟨site, thread'⟩ :: outer) := by
  cases h with
  | first ha hf => exact .first (hp Pending.isArgument_closed ha) (hp Pending.fits_closed hf)
  | @inside r _ hr ha hoffered hrest =>
    refine .inside hr (hp Pending.isArgument_closed ha) (fun hoffers => ?_) (hrest.keep hw ho)
    obtain ⟨hfits, token, hserves⟩ := hoffered ((offers_of_wiring hw).mp hoffers)
    exact ⟨hp Pending.fits_closed hfits, token, hs _ _ hserves⟩

/-- What the innermost call places is the arguments that it was made with, if it places anything. -/
theorem isArgument (h : m.Minds known (⟨site, thread⟩ :: outer)) : thread.Within Pending.IsArgument := by
  cases h with
  | first ha => exact ha
  | inside _ ha => exact ha

/-- The innermost call, which has no values, goes on in its store, be it to wait for the answer to a request. -/
theorem advances (h : m.Minds known (⟨site, thread⟩ :: outer)) (ho : m.Ordered)
    (hm : m.calls = ⟨site, thread⟩ :: outer) (hv : ∀ values, thread.activity ≠ .values values)
    (ht : ((m.store site).advance thread).thread? = some thread') :
    (m.awaiting site outer ((m.store site).advance thread).store thread').Minds known
      (⟨site, thread'⟩ :: outer) := by
  obtain ⟨hbound, hapart⟩ := ho.apart hm
  have hevolves := (m.store site).advance_evolves thread
  refine h.goes (put_wiring (m := m.behind outer) hevolves.wiring)
    (fun call hc => awaiting_store_of_ne (hapart call hc)) (fun hP hwithin => ?_) fun types token hserves => ?_
  · have hleft := Store.advance_within hP (m.store site) hwithin (Thread.takes_of_ne hv _)
    generalize (m.store site).advance thread = p at ht hleft
    cases p <;> cases ht
    · exact hleft.1
    · exact hleft.1
  · have hself : (m.awaiting site outer ((m.store site).advance thread).store thread').store site = _ :=
      awaiting_store_self hbound
    rw [ServesCall, hself]
    have hserved := Store.advance_serves hserves.1 hserves.2
    generalize (m.store site).advance thread = p at ht hserved
    cases p <;> cases ht
    · exact hserved
    · exact ⟨hserved.1, hserved.2.1⟩

/-- A call that is made for a request minds it. -/
theorem begins (h : m.Minds known r.waits) (hr : known r) (hc : m.calls = r.waits)
    (hp : r.provider < m.stores.size) (hn : r.provider ∉ m.chain)
    (hsound : (m.store r.provider).component.SoundExports) {args : List Value}
    (ha : Value.HaveTypes args r.type.params) {token : Option Token}
    (hs : m.begin r.provider (fun store =>
      store.receive r.interface r.function args r.type.results.length token) = .more m') :
    ∃ thread, m'.calls = ⟨r.provider, thread⟩ :: r.waits ∧ (∀ values, thread.activity ≠ .values values) ∧
      m'.Minds known m'.calls := by
  have hoffered := fun ho : m.Offers r => (m.store r.provider).receive_offered hsound ho ha token
  have hargument : ((m.store r.provider).receive r.interface r.function args r.type.results.length token).Within
      Pending.IsArgument :=
    Store.receive_within Pending.isArgument_closed _ (fun lift _ _ _ _ => ⟨lift, rfl⟩) _ _
  have hw := receive_wiring (m.store r.provider) r.interface r.function args r.type.results.length token
  rw [begin_eq] at hs
  generalize (m.store r.provider).receive r.interface r.function args r.type.results.length token = p
    at hoffered hargument hw hs
  cases p with
  | call | finish | trap => cases hs
  | go left thread =>
    cases hs
    have hkeep : ∀ call ∈ r.waits, (m.put r.provider left).store call.site = m.store call.site := by
      refine fun call hcall => store_put_of_ne ?_
      rintro he
      refine hn (he ▸ ?_)
      rw [chain, hc]
      exact List.mem_map_of_mem hcall
    refine ⟨thread, by rw [hc], hargument.2, ?_⟩
    rw [hc]
    refine .inside hr hargument.1 (fun hoffers => ?_) (h.keep (put_wiring hw) hkeep)
    obtain ⟨hserves, hfits, -⟩ := hoffered ((offers_of_wiring (put_wiring hw)).mp hoffers)
    have hself : (m.put r.provider left).store r.provider = left := store_put_self hp
    exact ⟨hfits.1, token, hself.symm ▸ hserves.1, hserves.2⟩

end Minds

/-! ## Answers -/

/-- A thread takes the answer to a request: it has got the values, or is placing them. They are values of the types
of the results, if the function is offered. -/
inductive Takes (m : Machine) (r : Request) (thread : Thread) : Prop where
  | values {values : List Value} (ht : thread = { r.waiting with activity := .values values })
      (hf : m.Offers r → Value.HaveTypes values r.type.results)
  | places {p : Placement} (ht : (m.store r.caller).Places p r.waiting.waits.tail thread) (hf : m.Offers r → p.Fits)

/-- A thread that takes the answer to a request goes on with it, or fails over a value that is none of its type. -/
theorem Takes.advance (h : m.Takes r thread) {args : List Value} (hr : r.waiting.Awaits r.type args) :
    ∃ p, (m.Offers r → p.Fits) ∧
      (m.store r.caller).PlacesOn p r.waiting.waits.tail ((m.store r.caller).advance thread) := by
  cases h with
  | places ht hf => exact ⟨_, hf, ht.advance⟩
  | @values values ht hf =>
    obtain ⟨memory, realloc, area, waits, hwaits⟩ := hr.reply
    obtain ⟨p, hfits, hplaces⟩ := (m.store r.caller).acceptReply_placesOn r.type memory realloc area values waits
      r.waiting.depth
    refine ⟨p, fun hoffers => hfits (hf hoffers), ?_⟩
    rw [ht, hwaits]
    unfold Store.advance
    dsimp only
    rw [hwaits]
    exact hplaces

/-! ## Steps -/

/-- What the calls under way are about: they mind what they were made for, or the innermost one takes the answer to
a request, and the calls minded what they were made for while they waited for it. -/
inductive Minded (m : Machine) (start : Next) : Prop where
  | works (h : m.Minds (start.Made m) m.calls)
      (hv : ∀ call outer, m.calls = call :: outer → ∀ values, call.thread.activity ≠ .values values)
  | answered {r : Request} {thread : Thread} (hr : start.Answered r m) (hm : m.calls = ⟨r.caller, thread⟩ :: r.outer)
      (ht : m.Takes r thread) (h : m.Minds (start.Made m) r.waits)

end Machine

/-- What a step leaves of a run in which the calls mind what they were made for. -/
def Next.Minded (next start : Next) : Prop :=
  match next with
  | .more m => m.Minded start
  | .done _ _ | .failed _ _ | .blocked _ => True

namespace Machine

variable {m m' : Machine} {start : Next} {r : Request} {known : Request → Prop} {site provider : Nat}
  {store : Store} {call call' : Call} {thread thread' : Thread} {outer : List Call}

/-- The machine behind a step minds what was known before it, and what was asked for in it. -/
theorem Minds.step (h : m'.Minds (fun r => start.Made m r ∨ m.Requests r) (call :: outer))
    (hc : m'.calls = call' :: outer) (hp : start.Passes m) (hs : m.step = .more m') :
    m'.Minds (start.Made m') (call :: outer) := by
  refine h.mono fun r inner hr hne he => ?_
  have hinside : m'.IsInside r.waits := by
    obtain ⟨first, inner, rfl⟩ := List.exists_cons_of_ne_nil hne
    rw [List.cons_append] at he
    exact ⟨call' :: inner, List.cons_ne_nil _ _, by rw [hc, (List.cons.inj he).2, List.cons_append]⟩
  rcases hr with ⟨asker, hpasses, hasks, hlasts⟩ | hasks
  · exact ⟨asker, hpasses, hasks, hlasts.goes hs hinside⟩
  · exact ⟨m, hp, hasks, .begins hs hinside⟩

/-- The machine in which a request has got its answer. -/
def answering (m : Machine) (r : Request) (store : Store) (values : List Value) : Machine :=
  { (m.behind r.waits).put r.provider store with
    calls := ⟨r.caller, { r.waiting with activity := .values values }⟩ :: r.outer }

/-- A call that waits for an answer is served for as long as its store holds the token of the call, be it that it
waits, or that it goes on behind its wait. -/
theorem ServesCall.awaits {types : List Component.ValType} {token : Option Token} {args : List Value}
    (h : m.ServesCall types token ⟨site, thread⟩) (ha : thread.Awaits r.type args)
    (ht : (m'.store site).token = (m.store site).token) :
    m'.ServesCall types token ⟨site, thread⟩ ∧ (m'.store site).Serves types token thread.waits.tail := by
  obtain ⟨memory, realloc, area, waits, hwaits⟩ := ha.reply
  have hserves := h.1
  rw [hwaits] at hserves
  obtain ⟨htoken, base, hb, hw⟩ := hserves.of_reply
  refine ⟨⟨?_, h.2⟩, ?_⟩
  · rw [hwaits]
    exact .calling hb (.reply _ _ _ _ rfl hw) (ht.trans htoken)
  · rw [hwaits]
    exact .calling hb hw (ht.trans htoken)

/-- Where the innermost call takes an answer, a step leads on with that, or to a thread that has what it has waited
for and goes on with it. -/
theorem Minded.of_answered (hp : start.Passes m) (ho : m.Ordered) (hr : start.Answered r m)
    (hm : m.calls = ⟨r.caller, thread⟩ :: r.outer) (h : m.Minds (start.Made m) r.waits)
    {p : Placement} (hf : m.Offers r → p.Fits)
    (ha : (m.store r.caller).PlacesOn p r.waiting.waits.tail (.go store thread'))
    (hw : store.wiring = (m.store r.caller).wiring)
    (hs : m.step = .more (m.awaiting r.caller r.outer store thread')) :
    (m.awaiting r.caller r.outer store thread').Minded start := by
  obtain ⟨hbound, hapart⟩ := ho.apart hm
  obtain ⟨args, hawaits⟩ := hr.awaits
  have hwiring : (m.awaiting r.caller r.outer store thread').wiring = m.wiring :=
    put_wiring (m := m.behind r.outer) hw
  have hself : (m.awaiting r.caller r.outer store thread').store r.caller = store := awaiting_store_self hbound
  have hothers : ∀ call ∈ r.outer, (m.awaiting r.caller r.outer store thread').store call.site = m.store call.site :=
    fun call hc => awaiting_store_of_ne (hapart call hc)
  have hknown : m.Minds (fun r => start.Made m r ∨ m.Requests r) (⟨r.caller, r.waiting⟩ :: r.outer) :=
    h.mono fun _ _ hr _ _ => .inl hr
  cases ha with
  | goes ht hb hplaces =>
    have hminds := hknown.goes hwiring hothers (fun _ hwithin => hwithin)
      fun types token hserves => (hserves.awaits hawaits (congrArg Store.token hself |>.trans ht)).1
    obtain ⟨frames, hwaits⟩ := hplaces.waits
    refine .answered (.goes hr hs rfl hwaits) rfl (.places (hself.symm ▸ hplaces) fun hoffers => ?_)
      (hminds.step rfl hp hs)
    have hfits := hf ((offers_of_wiring hwiring).mp hoffers)
    rcases hb with rfl | hb
    · exact hfits
    · exact hb.fits hfits
  | hands words depth ht =>
    have hminds : (m.awaiting r.caller r.outer store ⟨.words words, r.waiting.waits.tail, depth⟩).Minds
        (fun r => start.Made m r ∨ m.Requests r)
        (⟨r.caller, ⟨.words words, r.waiting.waits.tail, depth⟩⟩ :: r.outer) := by
      refine hknown.goes hwiring hothers (fun _ hwithin => ⟨?_, fun _ => nofun⟩) fun types token hserves => ?_
      · obtain ⟨memory, realloc, area, waits, hwaits⟩ := hawaits.reply
        have hall := hwithin.waits
        rw [hwaits] at hall ⊢
        exact hall.2
      · exact ⟨(hserves.awaits hawaits (congrArg Store.token hself |>.trans ht)).2, rfl⟩
    refine .works (hminds.step rfl hp hs) ?_
    rintro _ _ ⟨⟩ _ ⟨⟩

/-- Every step keeps that the calls under way mind what they were made for. -/
theorem step_minded (hp : start.Passes m) (ho : m.Ordered) (hs : m.Supplied) (hl : m.Lowered)
    (h : m.Minded start) : m.step.Minded start := by
  have hstep := m.step_stepped
  generalize hnext : m.step = next at hstep ⊢
  cases h with
  | @answered r taker hr htaker ht hminds =>
    obtain ⟨args, hawaits⟩ := hr.awaits
    obtain ⟨p, hf, hplaces⟩ := ht.advance hawaits
    cases hstep with
    | rests | stops => trivial
    | goes hm he ha =>
      cases htaker.symm.trans hm
      rw [ha] at hplaces
      exact .of_answered hp ho hr htaker hminds hf hplaces he.wiring hnext
    | finishes hm _ ha =>
      cases htaker.symm.trans hm
      rw [ha] at hplaces
      cases hplaces
    | asks hm _ ha =>
      cases htaker.symm.trans hm
      rw [ha] at hplaces
      cases hplaces
  | works hcalls hvalues =>
    cases hstep with
    | rests | stops => trivial
    | @goes site thread thread' outer store hm he ha =>
      have hgone := (hm ▸ hcalls).advances ho hm (hvalues _ _ hm) (congrArg Progress.thread? ha)
      have hgoes := (hl.advance hm).2
      rw [ha] at hgone hgoes
      refine .works ((hgone.mono fun _ _ hr _ _ => .inl hr).step rfl hp hnext) ?_
      rintro _ _ ⟨⟩
      exact hgoes.2
    | @finishes site thread outer store values hm he ha =>
      have hminds := hm ▸ hcalls
      cases hminds with
      | first => trivial
      | @inside r _ hr _ hoffered hrest =>
        have hw : (m.answering r store values).wiring = m.wiring := put_wiring (m := m.behind r.waits) he.wiring
        have hkept : (m.answering r store values).Minds (fun r => start.Made m r ∨ m.Requests r) r.waits :=
          (hrest.mono fun _ _ hr _ _ => .inl hr).keep hw fun call hc => store_put_of_ne ((ho.apart hm).2 call hc)
        refine .answered (.comes hr hnext rfl) rfl (.values rfl fun hoffers => ?_) (hkept.step rfl hp hnext)
        obtain ⟨-, token, hserves, hb⟩ := hoffered ((offers_of_wiring hw).mp hoffers)
        have hserved := Store.advance_serves hserves hb
        rw [ha] at hserved
        exact hserved.1
    | @asks site provider thread waiting outer store interface function args results hm he ha hlinks hi =>
      have hasks : m.Asks site outer store waiting interface function args results := ⟨thread, hm, hi, ha⟩
      obtain ⟨provider', type, hr, hawaits, rfl⟩ := hasks.request hs hl
      obtain rfl : provider = provider' := Option.some.inj (hlinks.symm.trans hr.linked)
      have hwaiting := (hm ▸ hcalls).advances ho hm (hvalues _ _ hm) (congrArg Progress.thread? ha)
      rw [ha] at hwaiting
      have hsize : provider < (m.awaiting site outer store waiting).stores.size := by
        rw [awaiting, size_put]
        exact Nat.lt_trans (ho.provider_lt hlinks) (ho.apart hm).1
      have hchain : provider ∉ (m.awaiting site outer store waiting).chain := by
        have hfree := ho.not_mem_chain hm hlinks
        rwa [chain, hm] at hfree
      have hsound : ((m.awaiting site outer store waiting).store provider).component.SoundExports := by
        rw [awaiting_store ho hlinks]
        exact (hs.accepted provider).soundExports
      have hbegin := hnext.symm.trans (hasks.step_begin ho hlinks)
      rw [hbegin] at hnext ⊢
      generalize hmade : (m.awaiting site outer store waiting).begin provider _ = behind at hnext ⊢
      cases behind with
      | done | failed | blocked => trivial
      | more m' =>
        have hknown : (m.awaiting site outer store waiting).Minds (fun r => start.Made m r ∨ m.Requests r)
            (⟨site, waiting⟩ :: outer) := hwaiting.mono fun _ _ hr _ _ => .inl hr
        obtain ⟨inside, hcalls', hinside, hminds⟩ :=
          hknown.begins (r := ⟨site, outer, waiting, provider, interface, function, type⟩) (.inr hr) rfl hsize
            hchain hsound hawaits.args hmade
        refine .works (hcalls' ▸ (hcalls' ▸ hminds).step hcalls' hp hnext) fun call outer' he => ?_
        cases hcalls'.symm.trans he
        exact hinside

/-! ## Calls that fail -/

/-- Where a function is offered, nothing of the call and of its answer is of a wrong type: whenever a run fails
because a function is missing or has another type, it is busy with a request for a function that its provider
does not offer. -/
theorem Minded.mismatch (h : m.Minded start) (ho : m.Ordered) (hs : m.Supplied)
    (hl : m.Lowered) {trap : Trap} (hf : m.step = .failed m' trap) (ht : trap.isMismatch = true) :
    ∃ r, m.Handles start r ∧ ¬ m.Offers r := by
  have hforeign := Trap.isForeign_of_mismatch ht
  have hstep := m.step_stepped
  generalize hnext : m.step = next at hstep hf
  cases hstep with
  | rests | goes => cases hf
  | finishes =>
    unfold reply at hf
    split at hf <;> cases hf
  | @stops site thread outer store reason hm _ hstop =>
    cases hf
    rcases hstop with ⟨-, rfl⟩ | hstop
    · cases ht
    · generalize ha : (m.store site).advance thread = p at hstop
      cases hstop with
      | call => cases ht
      | trap =>
        have hasked : ∀ r, ¬ m.Requests r := by
          intro r hr
          obtain ⟨left, args, hasks, -⟩ := hr.asks
          obtain ⟨thread', hm', -, ha'⟩ := hasks.thread
          cases hm.symm.trans hm'
          cases ha.symm.trans ha'
        cases h with
        | @answered r _ hr htaker htakes =>
          cases htaker.symm.trans hm
          obtain ⟨args, hawaits⟩ := hr.awaits
          obtain ⟨p, hfits, hplaces⟩ := htakes.advance hawaits
          rw [ha] at hplaces
          cases hplaces with
          | fails hmisfit => exact ⟨r, .answered hasked hr, fun hoffers => hmisfit hforeign (hfits hoffers)⟩
        | works hcalls hvalues =>
          have hunfit : ¬ thread.Within Pending.Fits := by
            intro hfits
            have hown := (m.store site).advance_own hfits.fits
            rw [ha] at hown
            exact Bool.noConfusion (hown.symm.trans hforeign)
          have hminds := hm ▸ hcalls
          have hargument := hminds.isArgument
          cases hminds with
          | first _ hfits => exact absurd hfits hunfit
          | @inside r _ hr _ hoffered =>
            exact ⟨r, .underway hasked (hvalues _ _ hm) hargument hr hm, fun hoffers => hunfit (hoffered hoffers).1⟩
  | @asks site provider thread waiting outer store interface function args results hm he ha hlinks hi =>
    have hasks : m.Asks site outer store waiting interface function args results := ⟨thread, hm, hi, ha⟩
    obtain ⟨provider', type, hr, hawaits, rfl⟩ := hasks.request hs hl
    obtain rfl : provider = provider' := Option.some.inj (hlinks.symm.trans hr.linked)
    refine ⟨_, .asked hr, fun hoffers => ?_⟩
    have hreceived := (m.store provider).receive_offered (hs.accepted provider).soundExports hoffers hawaits.args
      store.token
    have hbegin := hasks.step_begin ho hlinks
    rw [hnext, hf, begin_eq, awaiting_store ho hlinks] at hbegin
    generalize (m.store provider).receive interface function args type.results.length store.token = p
      at hreceived hbegin
    cases p with
    | go => cases hbegin
    | call | finish =>
      cases hbegin
      cases ht
    | trap left reason =>
      cases hbegin
      exact Bool.noConfusion ((hreceived.2.2 left trap rfl).symm.trans ht)

/-! ## Runs -/

section Runs

variable {providers : Array Store} {signals : Signals} {interface function : String} {args : List Value}
  {results : Nat} {token : Option Token}

theorem making_minded (start : Next) : (making providers store).Minded start := by
  rw [making, begin_eq]
  refine .works (.first ⟨trivial, fun _ _ => trivial⟩ ⟨trivial, fun _ _ => trivial⟩) ?_
  rintro _ _ ⟨⟩ _ ⟨⟩

theorem calling_minded (hf : (store.receive interface function args results token).Within Pending.Fits)
    (start : Next) : (calling providers store signals interface function args results token).Minded start := by
  have ha : (store.receive interface function args results token).Within Pending.IsArgument :=
    Store.receive_within Pending.isArgument_closed _ (fun lift _ _ _ _ => ⟨lift, rfl⟩) _ _
  rw [calling, begin_eq, atRest_store]
  generalize store.receive interface function args results token = p at hf ha
  cases p with
  | call | finish | trap => trivial
  | go left thread =>
    refine .works (.first ha.1 hf.1) ?_
    rintro _ _ ⟨⟩
    exact hf.2

end Runs

end Machine

/-- A run over stores that are in order and have what they import. When it starts, all functions of other
components are lowered, and the first call minds what it was made for. -/
structure Next.Heeds (start : Next) : Prop where
  passes : ∀ m, start.Passes m → m.Ordered ∧ m.Supplied
  lowered : start.Lowered
  minded : start.Minded start

/-- This is so of every machine that the run passes through. -/
theorem Next.Heeds.machine {start : Next} (h : start.Heeds) {m : Machine} (hm : start.Passes m) :
    m.Lowered ∧ m.Minded start :=
  hm.induction (P := fun next => next.Lowered ∧ next.Minded start)
    (fun m hm hk =>
      have ⟨hordered, hsupplied⟩ := h.passes m hm
      ⟨Machine.step_lowered hk.1, Machine.step_minded hm hordered hsupplied hk.1 hk.2⟩) ⟨h.lowered, h.minded⟩

end ComponentHost
