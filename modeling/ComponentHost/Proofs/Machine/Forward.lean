import ComponentHost.Proofs.Machine.Chain

/-! # Calls of imports

A call of an import runs in the store that provides it as it would run with nothing around it: its caller
waits, gets the values that the call returns, and goes down with it if it fails. -/
set_option autoImplicit false

namespace ComponentHost

/-- The machine with more calls around those that are under way. -/
def Machine.under (m : Machine) (outer : List Call) : Machine := { m with calls := m.calls ++ outer }

namespace Next

/-- What has come of a run after so many steps. -/
def after : Nat → Next → Next
  | 0, next => next
  | n + 1, .more m => after n m.step
  | _ + 1, next => next

/-- What a step comes to when there are calls around it: they get what it returns, and fail with it. -/
def under (outer : List Call) : Next → Next
  | .more m => .more (m.under outer)
  | .done m values => (m.under outer).reply values
  | .failed m trap => .failed (m.under outer).unwind trap
  | .blocked m => .blocked (m.under outer)

end Next

namespace Machine

/-! ## Steps with calls around them -/

variable (m : Machine) (outer : List Call)

theorem unwind_under : (m.under outer).unwind = (m.unwind.under outer).unwind := by
  unfold unwind under chain
  rw [List.map_append, List.foldl_append]
  rfl

theorem stop_under (site : Nat) (store : Store) (trap : Trap) :
    (m.under outer).stop site store trap = (m.stop site store trap).under outer := by
  have h := unwind_under (m.put site { store with token := none }) outer
  exact congrArg (Next.failed · trap) h

theorem begin_under (site : Nat) (start : Store → Progress) :
    (m.under outer).begin site start = (m.begin site start).under outer := by
  rw [begin_eq, begin_eq]
  have hstore : (m.under outer).store site = m.store site := rfl
  rw [hstore]
  cases start (m.store site) with
  | go store thread => rfl
  | call store | finish store => exact stop_under m outer site store .stuck
  | trap store trap => exact stop_under m outer site store trap

theorem forward_under {provider : Nat} (hp : provider ∉ outer.map Call.site)
    (interface function : String) (args : List Value) (results : Nat) (token : Option Token) :
    (m.under outer).forward provider interface function args results token =
      (m.forward provider interface function args results token).under outer := by
  have hchain : (m.under outer).chain.contains provider = m.chain.contains provider := by
    have : (outer.map Call.site).contains provider = false := by simpa using hp
    rw [chain, under, List.map_append, List.contains_append, this, Bool.or_false, chain]
  unfold forward
  rw [hchain]
  split
  · rfl
  · exact begin_under m outer provider _

/-- Calls around a machine change nothing of what a step does. -/
theorem step_under {m : Machine} {outer : List Call} (h : (m.under outer).Ordered) (hm : m.calls ≠ []) :
    (m.under outer).step = m.step.under outer := by
  obtain ⟨⟨site, thread⟩, inner, hcalls⟩ := List.exists_cons_of_ne_nil hm
  have hunder : (m.under outer).calls = ⟨site, thread⟩ :: (inner ++ outer) := by
    rw [under, hcalls, List.cons_append]
  have hstore : (m.under outer).store site = m.store site := rfl
  have hsignals : (m.under outer).signals = m.signals := rfl
  rw [step_cons hunder, step_cons hcalls, hstore, hsignals]
  dsimp only
  have he := (m.store site).advance_evolves thread
  split
  · exact stop_under { m with signals := m.signals.tick, calls := inner } outer site _ _
  · cases hadvance : (m.store site).advance thread with
    | go store thread' => rfl
    | trap store trap =>
      exact stop_under { m with signals := m.signals.tick, calls := inner } outer site store trap
    | finish store values =>
      cases inner with
      | nil => rfl
      | cons call inner => rfl
    | call store thread' interface function args results =>
      rw [hadvance] at he
      have hlinks : store.links = (m.store site).links := he.links
      dsimp only
      split
      · exact stop_under { m with signals := m.signals.tick, calls := inner } outer site store .stuck
      · next provider hl =>
        have hp : provider ∉ outer.map Call.site := by
          have hchain := h.not_mem_chain hunder (hlinks ▸ hl)
          rw [chain, hunder, List.map_cons, List.map_append] at hchain
          exact fun hmem => hchain (List.mem_cons_of_mem _ (List.mem_append_right _ hmem))
        exact forward_under { ({ m with signals := m.signals.tick, calls := inner }.put site store) with
          calls := ⟨site, thread'⟩ :: inner } outer hp interface function args results store.token

variable {m m' : Machine} {outer : List Call}

theorem Follows.ne_nil {calls : List Call} (h : m.Follows calls) : calls ≠ [] := by
  cases h <;> exact List.cons_ne_nil _ _

theorem calls_of_step_done {values : List Value} (h : m.step = .done m' values) : m'.calls = [] := by
  cases hm : m.calls with
  | nil =>
    unfold step at h
    rw [hm] at h
    cases h
    exact hm
  | cons call inner =>
    obtain ⟨site, thread⟩ := call
    rw [step_cons hm] at h
    dsimp only at h
    split at h
    · cases h
    · split at h
      · cases h
      · cases h
      · unfold reply at h
        split at h
        · next hnil =>
          cases h
          exact hnil
        · cases h
      · split at h
        · cases h
        · unfold forward at h
          split at h
          · cases h
          · rw [begin_eq] at h
            split at h <;> cases h

end Machine

/-! ## Runs with calls around them -/

namespace Next

/-- A run can go on with other calls around it: as long as it is under way it has calls, and they are in
order with those around them. -/
def Inside (outer : List Call) (next : Next) : Prop :=
  ∀ m, next = .more m → (m.under outer).Ordered ∧ m.calls ≠ []

theorem Inside.step {outer : List Call} {m : Machine} (h : Inside outer (.more m)) :
    Inside outer m.step := by
  intro m' hs
  obtain ⟨hordered, hne⟩ := h m rfl
  have hstep : (m.under outer).step = .more (m'.under outer) := by
    rw [Machine.step_under hordered hne, hs, under]
  exact ⟨hordered.step hstep, (m.step_cases.2.1 m' hs).2.ne_nil⟩

/-- A run with calls around it comes to what it comes to without them, in as many steps or fewer. -/
theorem after_under {outer : List Call} (n : Nat) {next : Next} (h : Inside outer next) :
    ∃ k ≤ n, (next.under outer).after k = (next.after n).under outer := by
  induction n generalizing next with
  | zero => exact ⟨0, Nat.le_refl 0, rfl⟩
  | succ n ih =>
    cases next with
    | more m =>
      obtain ⟨k, hk, he⟩ := ih h.step
      obtain ⟨hordered, hne⟩ := h m rfl
      refine ⟨k + 1, Nat.succ_le_succ hk, ?_⟩
      rw [under, after, Machine.step_under hordered hne]
      exact he
    | done | failed | blocked => exact ⟨0, Nat.zero_le _, rfl⟩

theorem passes_of_after {start : Next} {n : Nat} {m : Machine} (h : start.after n = .more m) : start.Passes m := by
  induction n generalizing start with
  | zero =>
    cases h
    exact ⟨m, 0, rfl, rfl⟩
  | succ n ih =>
    cases start with
    | more first => exact (ih h).cons
    | done | failed | blocked => cases h

/-- The machine that a run has come to after so many steps, if it goes on. -/
def moreAfter? (start : Next) (n : Nat) : Option Machine :=
  match start.after n with
  | .more m => some m
  | _ => none

/-- What a run has failed with. -/
def trap? : Next → Option Trap
  | .failed _ trap => some trap
  | _ => none

theorem failed_of_trap? {next : Next} {trap : Trap} (h : next.trap? = some trap) : ∃ m, next = .failed m trap := by
  cases next with
  | failed m trap' => exact ⟨m, congrArg (Next.failed m) (Option.some.inj h)⟩
  | more | done | blocked => cases h

theorem passes_of_moreAfter? {start : Next} {n : Nat} {m : Machine} (h : start.moreAfter? n = some m) :
    start.Passes m := by
  unfold moreAfter? at h
  split at h
  · next hn =>
    cases h
    exact passes_of_after hn
  · cases h

theorem calls_of_after_done {n : Nat} {next : Next} {left : Machine} {values : List Value}
    (hnext : ∀ m values, next = .done m values → m.calls = []) (h : next.after n = .done left values) :
    left.calls = [] := by
  induction n generalizing next with
  | zero => exact hnext left values h
  | succ n ih =>
    cases next with
    | more m => exact ih (fun _ _ hs => Machine.calls_of_step_done hs) h
    | done m values' =>
      cases h
      exact hnext left values rfl
    | failed | blocked => cases h

end Next

/-! ## Calls of imports -/

namespace Machine

/-- The innermost call, which is in a store and has others around it, asks for a function of an import; it
waits as a thread of the store that it leaves. -/
structure Asks (m : Machine) (site : Nat) (outer : List Call) (store : Store) (waiting : Thread)
    (interface function : String) (args : List Value) (results : Nat) : Prop where
  thread : ∃ thread, m.calls = ⟨site, thread⟩ :: outer ∧
    isInterrupted m.signals.tick (m.store site) thread = false ∧
    (m.store site).advance thread = .call store waiting interface function args results

/-- A call that asks for a function of an import, as it leaves its store and what it is in. -/
structure Asking where
  site : Nat
  outer : List Call
  store : Store
  waiting : Thread
  interface : String
  function : String
  args : List Value
  results : Nat

/-- The innermost call with what it asks for next, if it asks for a function of an import. -/
def asking? (m : Machine) : Option Asking :=
  match m.calls with
  | [] => none
  | ⟨site, thread⟩ :: outer =>
    if isInterrupted m.signals.tick (m.store site) thread then none
    else
      match (m.store site).advance thread with
      | .call store waiting interface function args results =>
        some ⟨site, outer, store, waiting, interface, function, args, results⟩
      | _ => none

theorem asks_of_asking? {m : Machine} {q : Asking} (h : m.asking? = some q) :
    m.Asks q.site q.outer q.store q.waiting q.interface q.function q.args q.results := by
  unfold asking? at h
  split at h
  · cases h
  · next hcalls =>
    split at h
    · cases h
    · next hi =>
      split at h
      · next hcall =>
        cases h
        exact ⟨_, hcalls, Bool.eq_false_iff.mpr hi, hcall⟩
      · cases h

/-- The call of an exported function of a provider that stands alone in the stores that a call from one of
them leaves. -/
def alone (m : Machine) (site : Nat) (store : Store) (provider : Nat) (interface function : String)
    (args : List Value) (results : Nat) : Next :=
  ({ (m.put site store) with signals := m.signals.tick, calls := [] } : Machine).begin provider
    fun callee => callee.receive interface function args results store.token

/-- A call that is asked for goes to a provider: the function is called there with these arguments, the
values that it returns go to the thread that waits, and a trap in it is one of the whole run. -/
structure Forwards (m : Machine) (site : Nat) (outer : List Call) (store : Store) (waiting : Thread)
    (provider : Nat) (interface function : String) (args : List Value) (results : Nat) : Prop where
  returns : ∀ n left values,
    (m.alone site store provider interface function args results).after n = .done left values →
    ∃ k ≤ n, m.step.after k =
      .more { left with calls := ⟨site, { waiting with activity := .values values }⟩ :: outer }
  fails : ∀ n left trap,
    (m.alone site store provider interface function args results).after n = .failed left trap →
    ∃ k ≤ n, ∃ left', m.step.after k = .failed left' trap

variable {m : Machine} {site provider : Nat} {waiting : Thread} {outer : List Call} {store : Store}
  {interface function : String} {args : List Value} {results : Nat}

theorem Asks.step_eq (h : m.Ordered)
    (ha : m.Asks site outer store waiting interface function args results)
    (hl : (m.store site).links.lookup interface = some provider) :
    m.step = (m.alone site store provider interface function args results).under
      (⟨site, waiting⟩ :: outer) := by
  obtain ⟨thread, hm, hi, hcall⟩ := ha.thread
  have he := (m.store site).advance_evolves thread
  rw [hcall] at he
  have hlinks : store.links = (m.store site).links := he.links
  rw [step_cons hm]
  dsimp only
  rw [hi, hcall]
  dsimp only [Bool.false_eq_true, if_false]
  rw [hlinks, hl]
  have hp : provider ∉ (⟨site, waiting⟩ :: outer : List Call).map Call.site := by
    have hchain := h.not_mem_chain hm hl
    rwa [chain, hm] at hchain
  exact forward_under { (m.put site store) with signals := m.signals.tick, calls := [] }
    (⟨site, waiting⟩ :: outer) hp interface function args results store.token

/-- A function of an import is called in the store that the import leads to. -/
theorem Asks.forwards (h : m.Ordered)
    (ha : m.Asks site outer store waiting interface function args results)
    (hl : (m.store site).links.lookup interface = some provider) :
    m.Forwards site outer store waiting provider interface function args results := by
  have hstep := ha.step_eq h hl
  obtain ⟨-, hmore, -⟩ := begin_cases { (m.put site store) with signals := m.signals.tick, calls := [] }
    provider (fun callee => callee.receive interface function args results store.token)
    fun _ => receive_wiring _ _ _ _ _ _
  have hinside : Next.Inside (⟨site, waiting⟩ :: outer)
      (m.alone site store provider interface function args results) := by
    intro first hf
    refine ⟨h.step (by rw [hstep, hf, Next.under]), ?_⟩
    obtain ⟨-, thread, hcalls⟩ := hmore first hf
    rw [hcalls]
    exact List.cons_ne_nil _ _
  refine ⟨fun n left values hn => ?_, fun n left trap hn => ?_⟩
  · obtain ⟨k, hk, he⟩ := Next.after_under n hinside
    have hnil : left.calls = [] := by
      refine Next.calls_of_after_done (fun m' values' hd => ?_) hn
      rw [alone, begin_eq] at hd
      split at hd <;> cases hd
    refine ⟨k, hk, ?_⟩
    rw [hstep, he, hn, Next.under, under, hnil]
    rfl
  · obtain ⟨k, hk, he⟩ := Next.after_under n hinside
    exact ⟨k, hk, _, by rw [hstep, he, hn, Next.under]⟩

end Machine

/-! ## Functions of imports -/

namespace Component

theorem ofTypes_lookup (names : List String) (members : List (String × ExternType)) (name : String) :
    (Extern.ofTypes names members).lookup name =
      (members.lookup name).map (Extern.ofType (names ++ [name])) := by
  induction members with
  | nil => rfl
  | cons m rest ih =>
    obtain ⟨member, t⟩ := m
    rw [Extern.ofTypes, List.lookup_cons, List.lookup_cons]
    split
    · next he =>
      rw [eq_of_beq he]
      rfl
    · exact ih

end Component

/-- What comes of a call of a core function that a function of an import was lowered to: the function is asked for
under both names, with the values that the words stand for, and its results are waited for, which go where the word
behind the parameters says if they are not words; or the words stand for no values, and the caller fails. -/
inductive Store.Asked (store : Store) (interface function : String) (type : Component.Signature)
    (memory realloc : Option Nat) (words : List UInt32) (waits : List Pending) (depth : Nat) : Progress → Prop where
  | calls {args : List Value} (hv : Value.ofArguments (store.memory? memory) type words = .ok args)
      (ht : Value.HaveTypes args type.params) :
      Asked store interface function type memory realloc words waits depth
        (.call store ⟨.values [], .reply type memory realloc words[type.passedWords]? :: waits, depth⟩
          interface function args type.results.length)
  | fails {trap : Trap} (hv : Value.ofArguments (store.memory? memory) type words = .error trap)
      (ho : trap.isOwn = true) :
      Asked store interface function type memory realloc words waits depth (.trap store trap)

/-- A function of an import is asked for whenever it is called, whatever its types are. -/
theorem Store.invoke_imported {store : Store} {address : Nat} {interface function : String}
    {type : Component.Signature} {memory realloc : Option Nat}
    (hf : store.functions[address]? =
      some (.lowered (.imported [interface, function]) type memory realloc))
    (hl : store.leavable = true) (words : List UInt32) (waits : List Pending) (depth : Nat) :
    store.Asked interface function type memory realloc words waits depth (store.invoke address words waits depth) := by
  have hreads : Trap.Reads (Value.HaveTypes · type.params) (Value.ofArguments (store.memory? memory) type words) :=
    Value.ofArguments_reads type words
  unfold invoke
  rw [hf]
  dsimp only
  rw [hl]
  cases hv : Value.ofArguments (store.memory? memory) type words with
  | error trap =>
    rw [hv] at hreads
    exact .fails hv hreads
  | ok args =>
    rw [hv] at hreads
    exact .calls hv hreads

end ComponentHost
