import ComponentHost.Machine.Build

/-!
The machine: the stores of a boundary and the chain of calls that are under way in them. A call into
another component's store holds that store until it returns; a call into a store that is held blocks.
`Machine.step` is total, and `Machine.run` repeats it a given number of times.
-/
set_option autoImplicit false

namespace ComponentHost

/-- The tokens that have fired, and one that fires after some more steps. -/
structure Signals where
  fired : List Token
  alarm : Option (Nat × Token)
  deriving DecidableEq, Repr, Inhabited

namespace Signals

def quiet : Signals := ⟨[], none⟩

def hasFired (signals : Signals) (token : Token) : Bool := signals.fired.contains token

def tick (signals : Signals) : Signals :=
  match signals.alarm with
  | none => signals
  | some (0, token) => ⟨token :: signals.fired, none⟩
  | some (n + 1, token) => { signals with alarm := some (n, token) }

end Signals

structure Call where
  site : Nat
  thread : Thread

structure Machine where
  stores : Array Store
  /-- The calls under way, the innermost first. -/
  calls : List Call
  signals : Signals
  deriving Inhabited

inductive Next where
  | more (machine : Machine)
  | done (machine : Machine) (values : List Value)
  | failed (machine : Machine) (trap : Trap)
  /-- A call waits for a store that its own chain holds. -/
  | blocked (machine : Machine)

namespace Machine

/-- The stores that the chain of calls is in. -/
def chain (m : Machine) : List Nat := m.calls.map Call.site

def put (m : Machine) (site : Nat) (store : Store) : Machine :=
  { m with stores := m.stores.setIfInBounds site store }

/-- Lays down the tokens of all stores that the chain is in, and gives up the chain. -/
def unwind (m : Machine) : Machine :=
  { m with
    stores := m.chain.foldl (fun stores site => stores.modify site ({ · with token := none })) m.stores
    calls := [] }

def takeOut (m : Machine) (site : Nat) : Store × Machine :=
  (m.stores.getD site default, m.put site default)

/-- Stops with a trap in a store: every token is laid down. -/
def stop (m : Machine) (site : Nat) (store : Store) (trap : Trap) : Next :=
  .failed (m.put site { store with token := none }).unwind trap

/-- Starts a call in a store, inside the calls that are under way. -/
def begin (m : Machine) (site : Nat) (start : Store → Progress) : Next :=
  let (store, m) := m.takeOut site
  match start store with
  | .go store thread => .more { m.put site store with calls := ⟨site, thread⟩ :: m.calls }
  | .call store _ _ _ _ _ | .finish store _ => m.stop site store .stuck
  | .trap store trap => m.stop site store trap

def isInterrupted (signals : Signals) (store : Store) (thread : Thread) : Bool :=
  match thread.activity with
  | .run _ => store.token.any signals.hasFired
  | _ => false

def reply (m : Machine) (values : List Value) : Next :=
  match m.calls with
  | [] => .done m values
  | ⟨site, thread⟩ :: outer =>
    .more { m with calls := ⟨site, { thread with activity := .values values }⟩ :: outer }

/-- Calls a function of the store that provides an interface. -/
def forward (m : Machine) (provider : Nat) (interface function : String) (args : List Value)
    (results : Nat) (token : Option Token) : Next :=
  if m.chain.contains provider then .blocked m
  else m.begin provider fun store => store.receive interface function args results token

def step (m : Machine) : Next :=
  match m.calls with
  | [] => .done m []
  | ⟨site, thread⟩ :: outer =>
    let (store, m) := { m with signals := m.signals.tick, calls := outer }.takeOut site
    if isInterrupted m.signals store thread then m.stop site store .interrupted
    else
      match store.advance thread with
      | .go store thread => .more { m.put site store with calls := ⟨site, thread⟩ :: outer }
      | .trap store trap => m.stop site store trap
      | .finish store values => (m.put site store).reply values
      | .call store thread interface function args results =>
        let token := store.token
        match store.links.lookup interface with
        | none => m.stop site store .stuck
        | some provider =>
          { m.put site store with calls := ⟨site, thread⟩ :: outer }.forward provider interface function
            args results token

inductive Ending where
  | done (values : List Value)
  | failed (trap : Trap)
  /-- A call waits for a store that its own chain holds, for ever. -/
  | blocked
  /-- The steps were not enough. -/
  | unfinished
  deriving Repr

def runFrom : Nat → Next → Machine × Ending
  | _, .done m values => (m, .done values)
  | _, .failed m trap => (m, .failed trap)
  | _, .blocked m => (m, .blocked)
  | 0, .more m => (m, .unfinished)
  | fuel + 1, .more m => runFrom fuel m.step

end Machine

end ComponentHost
