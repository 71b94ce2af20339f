import ComponentHost.Proofs.Dependency.Refusal

/-! # What linking decides

Linking succeeds exactly for resolvable scripts all of whose providers can be instantiated. A name that
is reported as a cycle leads back to itself; a name that is shared by many importers is not. -/
set_option autoImplicit false

namespace ComponentHost

open Relation

/-- A script and references as compiling leaves them: the checks have accepted every component. -/
structure Sources.Compiled (sources : Sources) (script : Component) : Prop where
  script : script.Accepted
  references : ∀ r ∈ sources.references, r.component.Accepted

namespace Compiler

theorem loaded_accepted {fs : FileSystem} {paths : List Path} {r : LoadedReference}
    (h : r ∈ loaded (paths.map fun path => (path, Component.load fs path))) :
    r.component.Accepted := by
  obtain ⟨⟨path, result⟩, hm, hr⟩ := List.mem_filterMap.mp h
  obtain ⟨path', -, he⟩ := List.mem_map.mp hm
  obtain ⟨rfl, rfl⟩ := Prod.mk.inj he
  cases hl : Component.load fs path' with
  | error fault =>
    rw [hl] at hr
    cases hr
  | ok c =>
    rw [hl] at hr
    cases hr
    exact Component.load_accepted hl

/-- What compiling leaves is as linking needs it, whatever has become of the files since. -/
theorem compile_compiled {compiler : Compiler} {fs fs' : FileSystem} {level : OptimizationLevel}
    {source : String} {script : Script} (manifest : Manifest)
    (h : compiler.compile fs level source = .ok script) :
    Sources.Compiled ⟨fs', manifest, script.references⟩ script.component := by
  unfold compile at h
  dsimp only at h
  split at h
  · cases h
  · split at h
    · cases h
    · next c hc =>
      unfold finish at h
      dsimp only at h
      split at h
      · cases h
      · cases h
        exact ⟨Component.parse_accepted hc, fun r hr => loaded_accepted hr⟩

end Compiler

/-- The checks have accepted every component that a script is linked with. -/
theorem Sources.Compiled.accepted {sources : Sources} {script c : Component}
    (h : sources.Compiled script) (hw : sources.OnTheWay script c) : c.Accepted := by
  rcases hw with rfl | ⟨name, -, hc⟩
  · exact h.script
  · cases hc with
    | listed path _ _ hl => exact Component.load_accepted hl
    | referenced r _ hf =>
      obtain ⟨before, after, hs, -, -⟩ := hf
      exact h.references r (by simp [hs])

theorem ok_of_toOption {ε α : Type} {x : Except ε α} {a : α} (h : x.toOption = some a) : x = .ok a := by
  cases x with
  | error e => cases h
  | ok b => rw [Option.some.inj h]

namespace Linked

/-! ## Instantiating providers -/

/-- Each provider of a list can be instantiated over the stores that those before it leave. -/
def Instantiable (fuel : Nat) (maxMemoryBytes : Option Nat) : Array Store → List Provider → Prop
  | _, [] => True
  | stores, p :: rest => ∃ visit values,
      Machine.instantiate fuel stores (p.store maxMemoryBytes) = .ok visit ∧
        visit.result = .ok values ∧
        Instantiable fuel maxMemoryBytes (visit.providers.push visit.store) rest

theorem instantiateAll_ok_iff (fuel : Nat) (maxMemoryBytes : Option Nat) (stores : Array Store)
    (providers : List Provider) :
    (∃ stores', instantiateAll fuel maxMemoryBytes stores providers = .ok (.ok stores')) ↔
      Instantiable fuel maxMemoryBytes stores providers := by
  induction providers generalizing stores with
  | nil => simp [instantiateAll, Instantiable]
  | cons p rest ih =>
    rw [instantiateAll, Instantiable]
    cases hv : Machine.instantiate fuel stores (p.store maxMemoryBytes) with
    | error stall => simp
    | ok visit =>
      cases hr : visit.result with
      | error trap => simp [hr]
      | ok values => simp [hr, ih]

theorem instantiateAll_error {fuel : Nat} {maxMemoryBytes : Option Nat} {stores : Array Store}
    {providers : List Provider} {e : LinkError}
    (h : instantiateAll fuel maxMemoryBytes stores providers = .ok (.error e)) :
    ∃ name trap, e = .instantiation name trap := by
  induction providers generalizing stores with
  | nil => cases h
  | cons p rest ih =>
    rw [instantiateAll] at h
    split at h
    · cases h
    · split at h
      · next trap _ =>
        cases h
        exact ⟨p.name, trap, rfl⟩
      · exact ih h

/-! ## Linking -/

variable {fuel : Nat} {sources : Sources} {maxMemoryBytes : Option Nat} {script : Component}

theorem link_eq_ok {plan : Plan} {links : List (String × Nat)}
    (hp : Plan.ofScript sources script = (plan, .ok links)) :
    (∃ linked, link fuel sources maxMemoryBytes script = .ok (.ok linked)) ↔
      Instantiable fuel maxMemoryBytes #[] plan.providers := by
  rw [← instantiateAll_ok_iff]
  unfold link
  rw [hp]
  dsimp only
  cases instantiateAll fuel maxMemoryBytes #[] plan.providers with
  | error stall => simp
  | ok result =>
    cases result with
    | error e => simp
    | ok stores => simp [Except.map]

theorem link_error {e : LinkError} (h : link fuel sources maxMemoryBytes script = .ok (.error e)) :
    (∃ name trap, e = .instantiation name trap) ∨
      ∃ plan, Plan.ofScript sources script = (plan, .error e) := by
  unfold link at h
  cases hp : Plan.ofScript sources script with
  | mk plan outcome =>
    rw [hp] at h
    dsimp only at h
    split at h
    · cases h
    · next e' hi =>
      cases h
      exact .inl (instantiateAll_error hi)
    · next stores hi =>
      cases outcome with
      | error e' =>
        cases h
        exact .inr ⟨plan, rfl⟩
      | ok links => cases h

theorem resolvable_of_link {linked : Linked}
    (h : link fuel sources maxMemoryBytes script = .ok (.ok linked)) : sources.Resolvable script := by
  cases hp : Plan.ofScript sources script with
  | mk plan outcome =>
    cases outcome with
    | ok links => exact (Plan.ofScript_ok hp).resolvable
    | error e =>
      unfold link at h
      rw [hp] at h
      dsimp only at h
      split at h
      · cases h
      · cases h
      · cases h

theorem exists_plan (compiled : sources.Compiled script) (resolvable : sources.Resolvable script) :
    ∃ plan links, Plan.ofScript sources script = (plan, .ok links) := by
  cases hp : Plan.ofScript sources script with
  | mk plan outcome =>
    cases outcome with
    | ok links => exact ⟨plan, links, rfl⟩
    | error e =>
      have refuses := Plan.ofScript_error hp
      exact absurd refuses (resolvable.not_refuses fun c hw => (compiled.accepted hw).distinctNames)

/-- Linking a compiled script succeeds exactly if what it reaches is closed, made of functions and free
of cycles, and every provider can be instantiated. A cycle that is reported is one. -/
theorem link_iff_resolvable (fuel : Nat) (sources : Sources) (maxMemoryBytes : Option Nat)
    (script : Component) (compiled : sources.Compiled script) :
    ((∃ linked, link fuel sources maxMemoryBytes script = .ok (.ok linked)) ↔
      sources.Resolvable script ∧
        Instantiable fuel maxMemoryBytes #[] (Plan.ofScript sources script).1.providers) ∧
    ∀ name, link fuel sources maxMemoryBytes script = .ok (.error (.cycle name)) →
      sources.Reaches script name ∧ TransGen sources.Imports name name := by
  refine ⟨⟨?_, ?_⟩, ?_⟩
  · rintro ⟨linked, h⟩
    have resolvable := resolvable_of_link h
    obtain ⟨plan, links, hp⟩ := exists_plan compiled resolvable
    rw [hp]
    exact ⟨resolvable, (link_eq_ok hp).mp ⟨linked, h⟩⟩
  · rintro ⟨resolvable, instantiable⟩
    obtain ⟨plan, links, hp⟩ := exists_plan compiled resolvable
    rw [hp] at instantiable
    exact (link_eq_ok hp).mpr instantiable
  · intro name h
    rcases link_error h with ⟨_, _, he⟩ | ⟨plan, hp⟩
    · cases he
    · cases Plan.ofScript_error hp with
      | cycle _ reaches cyclic => exact ⟨reaches, cyclic⟩

/-! ## A diamond and a loop -/

/-- Definitions that import functions from some names and export an instance under another. -/
def relayDefinitions (name : String) (imports : List String) : List (Wat.Definition Nat) :=
  imports.map (fun i => .import i none (.interface [("run", .func (.inline ⟨[], some .string⟩))])) ++
    [.interface none [] [], .export none name .interface ⟨imports.length, []⟩]

def relay (name : String) (imports : List String) : Component where
  imports := imports.map fun i => (i, .interface [("run", .func ⟨[], [.string]⟩)])
  steps := []
  exports := [(name, .interface [])]

/-- A configuration without a manifest, in which each name is provided by a relay. -/
def relays (entries : List (String × List String)) : Sources where
  fs := ⟨⟨"/"⟩, []⟩
  manifest := ⟨⟨"/"⟩, []⟩
  references := entries.map fun (name, imports) => ⟨⟨name⟩, relay name imports⟩

theorem relays_compiled {entries : List (String × List String)} {name : String}
    {imports : List String}
    (hs : Component.check (relayDefinitions name imports) = .ok (relay name imports))
    (hr : ∀ e ∈ entries, Component.check (relayDefinitions e.1 e.2) = .ok (relay e.1 e.2)) :
    (relays entries).Compiled (relay name imports) where
  script := .inr ⟨_, hs⟩
  references := by
    intro r hm
    obtain ⟨e, he, rfl⟩ := List.mem_map.mp hm
    exact .inr ⟨_, hr e he⟩

/-- Two imports may share what they import, and a loop below the script is found. -/
theorem link_diamond_and_loop :
    (relays [("b", ["d"]), ("c", ["d"]), ("d", [])]).Resolvable (relay "a" ["b", "c"]) ∧
      TransGen (relays [("b", ["c"]), ("c", ["d"]), ("d", ["c"])]).Imports "c" "c" := by
  have diamond : (relays [("b", ["d"]), ("c", ["d"]), ("d", [])]).Compiled (relay "a" ["b", "c"]) := by
    refine relays_compiled rfl fun e he => ?_
    simp only [List.mem_cons, List.not_mem_nil, or_false] at he
    rcases he with rfl | rfl | rfl <;> rfl
  have loop : (relays [("b", ["c"]), ("c", ["d"]), ("d", ["c"])]).Compiled (relay "a" ["b"]) := by
    refine relays_compiled rfl fun e he => ?_
    simp only [List.mem_cons, List.not_mem_nil, or_false] at he
    rcases he with rfl | rfl | rfl <;> rfl
  exact ⟨((link_iff_resolvable 10 _ none _ diamond).1.mp ⟨_, rfl⟩).1,
    ((link_iff_resolvable 10 _ none _ loop).2 "c" rfl).2⟩

/-! ## Counters -/

theorem link_of_toOption {outcome : Except LinkError Linked} {linked : Linked}
    (ho : (link fuel sources maxMemoryBytes script).toOption = some outcome) (hl : outcome.toOption = some linked) :
    link fuel sources maxMemoryBytes script = .ok (.ok linked) := by
  rw [ok_of_toOption ho, ok_of_toOption hl]

/-- The type of a function that takes a pair, whose second part may be missing, and returns a number. -/
def countType : Wat.FuncUse Nat :=
  .inline ⟨[("p", .tuple [.scalar .u32, .option (.scalar .u32)])], some (.scalar .u32)⟩

/-- Definitions of a component with a function that counts its calls, hands what it is called with on to that of
every import and returns the sum. When an instance is made, it calls the functions of the imports already. -/
def counterDefinitions (name : String) (imports : List String) : List (Wat.Definition Nat) :=
  let coreType : Wat.TypeUse Nat := ⟨none, some ⟨List.replicate 3 none, 1⟩⟩
  let numbers := List.range imports.length
  imports.map (fun i => .import i none (.interface [("count", .func countType)])) ++
    numbers.map (fun n => .alias .func n "count") ++
    numbers.map (fun n => .lower none ⟨n, []⟩ []) ++ [
    .coreBundle none ((imports.zip numbers).map fun (i, n) => (i, .func, ⟨n, none⟩)),
    .coreModule none [] (imports.map (fun i => .import 0 "" i none [] (.func coreType)) ++ [
      .global none [] true [.simple (.const 0)],
      .func none ["count"] coreType []
        ([.globalGet 0, .simple (.const 1), .simple (.binary .add), .globalSet 0, .globalGet 0] ++
          numbers.flatMap fun n => [.localGet 0, .localGet 1, .localGet 2, .call n, .simple (.binary .add)]),
      .func none [] ⟨none, some ⟨[], 0⟩⟩ [] (numbers.flatMap fun n =>
        [.simple (.const 0), .simple (.const 0), .simple (.const 0), .call n, .simple .drop]),
      .start (imports.length + 1)]),
    .coreInstantiate none 0 [("", .given 0)],
    .coreAlias .func 1 "count",
    .lift none [] countType ⟨imports.length, none⟩ [],
    .interface none [] [("count", .func, ⟨imports.length, []⟩)],
    .export none name .interface ⟨imports.length, []⟩]

def counter (name : String) (imports : List String) : Component :=
  (Component.check (counterDefinitions name imports)).toOption.getD .empty

/-- A configuration without a manifest, in which each name is provided by a counter. -/
def counters (entries : List (String × List String)) : Sources where
  fs := ⟨⟨"/"⟩, []⟩
  manifest := ⟨⟨"/"⟩, []⟩
  references := entries.map fun (name, imports) => ⟨⟨name⟩, counter name imports⟩

end Linked

end ComponentHost
