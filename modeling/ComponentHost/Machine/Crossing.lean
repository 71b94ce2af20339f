import ComponentHost.Machine.Thread

/-!
Crossing the boundary of a component: entering a function that a component implements, placing the
values that are passed, reading results, and calling the function of another component.
-/
set_option autoImplicit false

namespace ComponentHost

def maxDepth : Nat := 16384

namespace Store

def invoke (store : Store) (address : Nat) (args : List UInt32) (waits : List Pending) (depth : Nat) :
    Progress :=
  match store.functions[address]? with
  | none => .trap store .stuck
  | some (.guest owner func) =>
    if maxDepth ≤ depth then .trap store .stackExhausted
    else .go store ⟨.run (.start owner func args), waits, depth + 1⟩
  | some (.lowered callee type memory realloc) =>
    if !store.leavable then .trap store .cannotLeave
    else
      match Value.ofArguments (store.memory? memory) type args with
      | .error trap => .trap store trap
      | .ok values =>
        match callee with
        | .imported [interface, function] =>
          -- the pointer to the area for results is behind the parameters
          let area := args[type.passedWords]?
          .call store ⟨.values [], .reply type memory realloc area :: waits, depth⟩ interface function
            values type.results.length
        | .imported _ => .trap store .stuck
        | .lifted _ => .trap store .degenerate

/-! ## Placing values -/

/-- Puts a number behind the words of a placement, or into its memory. -/
def putNumber (store : Store) (placement : Placement) (value : UInt32) (bytes : Nat) (target : Target) :
    Store × Placement :=
  match target with
  | .words => (store, { placement with words := value :: placement.words })
  | .memory address =>
    (store.changeMemory placement.memory fun m => m.writeNumber address value.toNat bytes, placement)

/-- Puts the bytes of contents where room has been made for them, unless there is not enough. -/
def fill (store : Store) (memory : Option Nat) (contents : Contents) (address : Nat) : Except Trap Store :=
  if address % contents.align ≠ 0 then .error .allocationMisaligned
  else if store.memoryHolds memory address contents.size then
    .ok (store.changeMemory memory fun m => m.write address contents.bytes)
  else .error .allocationOutOfBounds

/-- Goes on placing values, with the words that have come in: does the next task, or hands on the words
when there is none. The component cannot call others meanwhile. -/
def place (store : Store) (placement : Placement) (words : List UInt32) (waits : List Pending)
    (depth : Nat) : Progress :=
  match placement.tasks, words with
  | [], [] => .go { store with leavable := true } ⟨.words placement.words.reverse, waits, depth⟩
  | .part part target :: rest, [] =>
    match part.tasks target with
    | .error trap => .trap store trap
    | .ok tasks => .go store ⟨.words [], .placing { placement with tasks := tasks ++ rest } :: waits, depth⟩
  | .number value bytes target :: rest, [] =>
    let (store, placement) := store.putNumber placement value bytes target
    .go store ⟨.words [], .placing { placement with tasks := rest } :: waits, depth⟩
  | .ask contents target :: rest, [] =>
    match placement.realloc with
    | none => .trap store .stuck
    | some f =>
      if contents.size < UInt32.size then
        store.invoke f [0, 0, UInt32.ofNat contents.align, UInt32.ofNat contents.size]
          (.placing { placement with tasks := .fill contents target :: rest } :: waits) depth
      else .trap store .sizeOutOfRange
  | .fill contents target :: rest, [address] =>
    match store.fill placement.memory contents address.toNat with
    | .error trap => .trap store trap
    | .ok store =>
      .go store ⟨.words [], .placing { placement with
        tasks := Task.contents contents address target ++ rest } :: waits, depth⟩
  | _, _ => .trap store .stuck

/-! ## Entering -/

/-- Enters a function that the component implements. Nothing is changed when the numbers of arguments
and results are wrong or a call is in the component already. -/
def enter (store : Store) (lift : Component.Lift) (args : List Value) (results : Nat) : Progress :=
  let type := lift.type
  if args.length ≠ type.params.length then
    .trap store (.argumentCount type.params.length args.length)
  else if results ≠ type.results.length then
    .trap store (.resultCount type.results.length results)
  else if !store.enterable then .trap store .cannotEnter
  else
    let placement := Placement.ofArguments (lift.memory.bind (store.address? .memory))
      (lift.realloc.bind (store.address? .func)) type args
    .go { store with enterable := false, leavable := false }
      ⟨.words [], [.placing placement, .enter lift], 0⟩

/-- Calls the core function that implements a function. -/
def callBody (store : Store) (lift : Component.Lift) (words : List UInt32) (depth : Nat) : Progress :=
  match store.address? .func lift.func with
  | none => .trap store .stuck
  | some f => store.invoke f words [.body lift] depth

/-- Calls a member of an interface that the component exports, on behalf of whoever holds a token. -/
def receive (store : Store) (interface function : String) (args : List Value) (results : Nat)
    (token : Option Token) : Progress :=
  match store.component.member? interface function with
  | none => .trap store (.missingFunction interface function)
  | some (.func (.lifted lift) _) => { store with token }.enter lift args results
  | some (.func (.imported _) _) => .trap store .stuck
  | some _ => .trap store (.notFunction interface function)

/-! ## Leaving -/

def readResults (store : Store) (lift : Component.Lift) (words : List UInt32) :
    Except Trap (List Value) :=
  Value.ofResults (store.memory? (lift.memory.bind (store.address? .memory))) lift.type words

def release (store : Store) : Store := { store with enterable := true, leavable := true }

/-- Goes on when a core function has returned: the token is laid down, and the function that clears up
is called if there is one. -/
def leave (store : Store) (lift : Component.Lift) (words : List UInt32) : Progress :=
  match store.readResults lift words with
  | .error trap => .trap store trap
  | .ok values =>
    let store := { store with token := none }
    match lift.postReturn with
    | none => .finish store.release values
    | some cleanup =>
      match store.address? .func cleanup with
      | none => .trap store .stuck
      | some f => { store with leavable := false }.invoke f words [.cleanup values] 0

/-! ## Replies -/

/-- Where results go: behind words or, when they are too many, to an area that a word points to. -/
def resultTarget (store : Store) (type : Component.Signature) (memory : Option Nat)
    (area : Option UInt32) : Except Trap Target :=
  if type.flatResults then .ok .words
  else
    match store.memory? memory, area with
    | some m, some pointer =>
      (Value.area m type.results .areaMisaligned .areaOutOfBounds pointer).map .memory
    | _, _ => .error .stuck

def acceptReply (store : Store) (type : Component.Signature) (memory realloc : Option Nat)
    (area : Option UInt32) (values : List Value) (waits : List Pending) (depth : Nat) : Progress :=
  match store.resultTarget type memory area with
  | .error trap => .trap store trap
  | .ok target =>
    .go { store with leavable := false }
      ⟨.words [], .placing (.ofResults memory realloc type values target) :: waits, depth⟩

end Store

end ComponentHost
