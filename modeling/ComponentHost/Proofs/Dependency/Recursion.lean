import ComponentHost.Proofs.Dependency.Instances
import ComponentHost.Proofs.Dependency.Lookups

/-! # The recursion of linking

Linking a component resolves each of its imports, and resolving a name links the component that is located
for it, makes its instance, and goes on. Here this recursion is followed call by call, with nothing that
bounds it from outside. It ends because a name that is located has a slot from then on, whatever comes of
it: what shrinks along the recursion is how many names have none. -/
set_option autoImplicit false

namespace ComponentHost.Recursion

/-! ## Calls -/

/-- Why a call does not give what it was made for. -/
inductive Halt where
  | error (e : LinkError)
  /-- The code of an instance that was being made did not end. -/
  | stall (stall : Stall)

def settle {α : Type} : Except Stall (Except LinkError α) → Except Halt α
  | .error stall => .error (.stall stall)
  | .ok (.error e) => .error (.error e)
  | .ok (.ok a) => .ok a

/-- A call that has returned. -/
structure Returned (α : Type) where
  /-- How many calls of `link` were open at once. -/
  links : Nat
  /-- How many calls of `resolve` were open at once. -/
  resolves : Nat
  /-- The names that were located, in order. -/
  located : List String
  /-- The plan that it left, which stays as it is when the call fails. -/
  plan : Plan
  outcome : Except Halt (Array Store × α)

/-- Checks that an import is not linked yet and that its members can be. -/
def checkImport (links : List (String × Nat)) (name : String)
    (members : List (String × Component.ExternType)) : Except LinkError Unit :=
  if (links.lookup name).isSome then .error (.linkedTwice name) else Plan.checkMembers name [] members

/-- What an import is linked to, once its name is resolved. -/
def attach (links : List (String × Nat)) (name : String) (members : List (String × Component.ExternType)) :
    Except Halt (Array Store × Nat) → Except Halt (Array Store × List (String × Nat))
  | .error halt => .error halt
  | .ok (stores, number) =>
    match checkImport links name members with
    | .error e => .error (.error e)
    | .ok () => .ok (stores, links ++ [(name, number)])

variable (fuel : Nat) (maxMemoryBytes : Option Nat) (sources : Sources)

/-- What is left of a plan, and comes of a name, once the imports of its component are linked. -/
def provide (name : String) (c : Component) (plan : Plan) :
    Except Halt (Array Store × List (String × Nat)) → Plan × Except Halt (Array Store × Nat)
  | .error halt => (plan, .error halt)
  | .ok (stores, links) =>
    match settle (Linked.instantiateAll fuel maxMemoryBytes stores [⟨name, c, links⟩]) with
    | .error halt => (plan, .error halt)
    | .ok stores => (plan.add ⟨name, c, links⟩, .ok (stores, plan.providers.length))

mutual

/-- A call of `resolve` returns. -/
inductive Resolves : Plan → Array Store → String → Returned Nat → Prop where
  | loaded {plan : Plan} {stores : Array Store} {name : String} {number : Nat} :
      plan.slots.lookup name = some (.loaded number) →
      Resolves plan stores name ⟨0, 1, [], plan, .ok (stores, number)⟩
  | loading {plan : Plan} {stores : Array Store} {name : String} :
      plan.slots.lookup name = some .loading →
      Resolves plan stores name ⟨0, 1, [], plan, .error (.error (.cycle name))⟩
  | absent {plan : Plan} {stores : Array Store} {name : String} {e : LinkError} :
      plan.slots.lookup name = none → sources.provider name = .error e →
      Resolves plan stores name ⟨0, 1, [name], plan.fill name .loading, .error (.error e)⟩
  | located {plan : Plan} {stores : Array Store} {name : String} {c : Component}
      {inner : Returned (List (String × Nat))} :
      plan.slots.lookup name = none → sources.provider name = .ok c →
      Links (plan.fill name .loading) stores [] c.imports inner →
      Resolves plan stores name ⟨inner.links, inner.resolves + 1, name :: inner.located,
        (provide fuel maxMemoryBytes name c inner.plan inner.outcome).1,
        (provide fuel maxMemoryBytes name c inner.plan inner.outcome).2⟩

/-- A call of `link` returns, with these of its imports still to be linked. -/
inductive Links : Plan → Array Store → List (String × Nat) → List (String × Component.ExternType) →
    Returned (List (String × Nat)) → Prop where
  | done {plan : Plan} {stores : Array Store} {links : List (String × Nat)} :
      Links plan stores links [] ⟨1, 0, [], plan, .ok (stores, links)⟩
  | unsupported {plan : Plan} {stores : Array Store} {links : List (String × Nat)} {name : String}
      {t : Component.ExternType} {rest : List (String × Component.ExternType)} :
      (∀ members, t ≠ .interface members) →
      Links plan stores links ((name, t) :: rest)
        ⟨1, 0, [], plan, .error (.error (.unsupportedImport name))⟩
  | halted {plan : Plan} {stores : Array Store} {links : List (String × Nat)} {name : String}
      {members rest : List (String × Component.ExternType)} {first : Returned Nat} {halt : Halt} :
      Resolves plan stores name first → attach links name members first.outcome = .error halt →
      Links plan stores links ((name, .interface members) :: rest)
        ⟨first.links + 1, first.resolves, first.located, first.plan, .error halt⟩
  | next {plan : Plan} {stores stores' : Array Store} {links links' : List (String × Nat)} {name : String}
      {members rest : List (String × Component.ExternType)} {first : Returned Nat}
      {others : Returned (List (String × Nat))} :
      Resolves plan stores name first → attach links name members first.outcome = .ok (stores', links') →
      Links first.plan stores' links' rest others →
      Links plan stores links ((name, .interface members) :: rest)
        ⟨max (first.links + 1) others.links, max first.resolves others.resolves,
          first.located ++ others.located, others.plan, others.outcome⟩

end

variable {fuel maxMemoryBytes sources}

/-! ## Calls return in one way -/

mutual

theorem Resolves.unique {plan : Plan} {stores : Array Store} {name : String} {run run' : Returned Nat}
    (h : Resolves fuel maxMemoryBytes sources plan stores name run)
    (h' : Resolves fuel maxMemoryBytes sources plan stores name run') : run = run' := by
  match h with
  | .loaded hs =>
    cases h' with
    | loaded hs' =>
      cases hs.symm.trans hs'
      rfl
    | loading hs' | absent hs' | located hs' => cases hs.symm.trans hs'
  | .loading hs =>
    cases h' with
    | loading => rfl
    | loaded hs' | absent hs' | located hs' => cases hs.symm.trans hs'
  | .absent hs hp =>
    cases h' with
    | loaded hs' | loading hs' => cases hs.symm.trans hs'
    | absent _ hp' =>
      cases hp.symm.trans hp'
      rfl
    | located _ hp' => cases hp.symm.trans hp'
  | .located hs hp hl =>
    cases h' with
    | loaded hs' | loading hs' => cases hs.symm.trans hs'
    | absent _ hp' => cases hp.symm.trans hp'
    | located _ hp' hl' =>
      cases hp.symm.trans hp'
      cases hl.unique hl'
      rfl
termination_by structural h

theorem Links.unique {plan : Plan} {stores : Array Store} {links : List (String × Nat)}
    {imports : List (String × Component.ExternType)} {run run' : Returned (List (String × Nat))}
    (h : Links fuel maxMemoryBytes sources plan stores links imports run)
    (h' : Links fuel maxMemoryBytes sources plan stores links imports run') : run = run' := by
  match h with
  | .done =>
    cases h'
    rfl
  | .unsupported ht =>
    cases h' with
    | unsupported => rfl
    | halted | next => exact absurd rfl (ht _)
  | .halted hr ho =>
    cases h' with
    | unsupported ht => exact absurd rfl (ht _)
    | halted hr' ho' =>
      cases hr.unique hr'
      cases ho.symm.trans ho'
      rfl
    | next hr' ho' =>
      cases hr.unique hr'
      cases ho.symm.trans ho'
  | .next hr ho hrest =>
    cases h' with
    | unsupported ht => exact absurd rfl (ht _)
    | halted hr' ho' =>
      cases hr.unique hr'
      cases ho.symm.trans ho'
    | next hr' ho' hrest' =>
      cases hr.unique hr'
      cases ho.symm.trans ho'
      cases hrest.unique hrest'
      rfl
termination_by structural h

end

/-! ## No name is located twice -/

theorem looks_provide {plan plan' : Plan} {log : List String} {name : String} (h : Plan.Looks plan plan' log)
    (hn : name ∈ log) (c : Component) (outcome : Except Halt (Array Store × List (String × Nat))) :
    Plan.Looks plan (provide fuel maxMemoryBytes name c plan' outcome).1 log := by
  unfold provide
  split
  · exact h
  · split
    · exact h
    · exact h.add hn

mutual

theorem Resolves.looks {plan : Plan} {stores : Array Store} {name : String} {run : Returned Nat}
    (h : Resolves fuel maxMemoryBytes sources plan stores name run) :
    Plan.Looks plan run.plan run.located := by
  match h with
  | .loaded _ | .loading _ => exact .nil plan
  | .absent hs _ => exact Plan.looks_fill .loading hs
  | .located hs _ hl =>
    -- the slot is filled before the imports are linked, so nothing inside locates the name again
    exact looks_provide ((Plan.looks_fill .loading hs).append hl.looks) List.mem_cons_self _ _
termination_by structural h

theorem Links.looks {plan : Plan} {stores : Array Store} {links : List (String × Nat)}
    {imports : List (String × Component.ExternType)} {run : Returned (List (String × Nat))}
    (h : Links fuel maxMemoryBytes sources plan stores links imports run) :
    Plan.Looks plan run.plan run.located := by
  match h with
  | .done | .unsupported _ => exact .nil plan
  | .halted hr _ => exact hr.looks
  | .next hr _ hrest => exact hr.looks.append hrest.looks
termination_by structural h

end

/-! ## How many names have no slot -/

/-- How many of some names have no slot in a plan. -/
def unplaced (names : List String) (plan : Plan) : Nat :=
  (names.filter fun name => (plan.slots.lookup name).isNone).length

variable {names : List String} {plan plan' : Plan} {stores : Array Store} {name : String}

theorem unplaced_empty (names : List String) : unplaced names Plan.empty = names.length := by
  simp [unplaced, Plan.empty]

theorem unplaced_le {log : List String} (h : Plan.Looks plan plan' log) :
    unplaced names plan' ≤ unplaced names plan := by
  refine (List.monotone_filter_right names fun name hn => ?_).length_le
  rw [Option.isNone_iff_eq_none] at hn ⊢
  exact ((h.slots name).mp hn).1

theorem unplaced_fill_lt (hn : name ∈ names) (hs : plan.slots.lookup name = none) (slot : Slot) :
    unplaced names (plan.fill name slot) < unplaced names plan := by
  have hfill : (names.filter fun other => ((plan.fill name slot).slots.lookup other).isNone) =
      (names.filter fun other => (plan.slots.lookup other).isNone).filter fun other => other != name := by
    rw [List.filter_filter]
    refine List.filter_congr fun other _ => ?_
    by_cases ho : other = name
    · subst ho
      simp
    · rw [Plan.lookup_fill_of_ne plan slot ho]
      simp [ho]
  rw [unplaced, hfill, unplaced, List.length_filter_lt_length_iff_exists]
  exact ⟨name, List.mem_filter.mpr ⟨hn, by simp [hs]⟩, by simp⟩

/-- Names that hold the imports of every provider. -/
def Closed (sources : Sources) (names : List String) : Prop :=
  ∀ name c, sources.provider name = .ok c → c.importNames ⊆ names

theorem closed_names (sources : Sources) (script : Component) :
    Closed sources (sources.names script) := by
  intro name c hc import' hi
  have hp := ((Sources.provider_eq_ok_iff name c).mp hc).1
  rw [Sources.names, List.mem_eraseDups, List.mem_flatMap]
  exact ⟨c, List.mem_cons_of_mem _ hp.mem_components, hi⟩

theorem importNames_subset_names (sources : Sources) (script : Component) :
    script.importNames ⊆ sources.names script :=
  fun _ hi => (Sources.Reaches.of_mem hi).mem_names

/-! ## How deep calls are nested -/

mutual

theorem Resolves.depth_le {plan : Plan} {stores : Array Store} {name : String} {run : Returned Nat}
    (closed : Closed sources names) (h : Resolves fuel maxMemoryBytes sources plan stores name run)
    (hn : name ∈ names) :
    run.links ≤ unplaced names plan ∧ run.resolves ≤ unplaced names plan + 1 := by
  match h with
  | .loaded _ | .loading _ | .absent _ _ => exact ⟨Nat.zero_le _, Nat.le_add_left 1 _⟩
  | .located hs hp hl =>
    have hlt := unplaced_fill_lt hn hs .loading
    obtain ⟨hlinks, hresolves⟩ := hl.depth_le closed (closed _ _ hp)
    exact ⟨Nat.le_trans hlinks hlt, Nat.succ_le_succ (Nat.le_trans hresolves hlt)⟩
termination_by structural h

theorem Links.depth_le {plan : Plan} {stores : Array Store} {links : List (String × Nat)}
    {imports : List (String × Component.ExternType)} {run : Returned (List (String × Nat))}
    (closed : Closed sources names)
    (h : Links fuel maxMemoryBytes sources plan stores links imports run)
    (hi : imports.map Prod.fst ⊆ names) :
    run.links ≤ unplaced names plan + 1 ∧ run.resolves ≤ unplaced names plan + 1 := by
  match h with
  | .done | .unsupported _ => exact ⟨Nat.le_add_left 1 _, Nat.zero_le _⟩
  | .halted hr _ =>
    obtain ⟨hlinks, hresolves⟩ := hr.depth_le closed (hi List.mem_cons_self)
    exact ⟨Nat.succ_le_succ hlinks, hresolves⟩
  | .next hr _ hrest =>
    obtain ⟨hlinks, hresolves⟩ := hr.depth_le closed (hi List.mem_cons_self)
    obtain ⟨hlinks', hresolves'⟩ := hrest.depth_le closed (List.subset_of_cons_subset hi)
    have hle : unplaced names _ + 1 ≤ unplaced names plan + 1 := Nat.succ_le_succ (unplaced_le hr.looks)
    exact ⟨Nat.max_le.mpr ⟨Nat.succ_le_succ hlinks, Nat.le_trans hlinks' hle⟩,
      Nat.max_le.mpr ⟨hresolves, Nat.le_trans hresolves' hle⟩⟩
termination_by structural h

end

/-! ## Calls return -/

theorem exists_links {depth : Nat}
    (hr : ∀ plan stores name, unplaced names plan < depth → name ∈ names →
      ∃ run, Resolves fuel maxMemoryBytes sources plan stores name run)
    (imports : List (String × Component.ExternType)) (hi : imports.map Prod.fst ⊆ names)
    (stores : Array Store) (links : List (String × Nat)) (hd : unplaced names plan < depth) :
    ∃ run, Links fuel maxMemoryBytes sources plan stores links imports run := by
  induction imports generalizing plan stores links with
  | nil => exact ⟨_, .done⟩
  | cons i rest ih =>
    obtain ⟨import', t⟩ := i
    cases t with
    | interface members =>
      obtain ⟨first, hfirst⟩ := hr plan stores import' hd (hi List.mem_cons_self)
      cases ho : attach links import' members first.outcome with
      | error halt => exact ⟨_, .halted hfirst ho⟩
      | ok linked =>
        obtain ⟨others, hrest⟩ := ih (List.subset_of_cons_subset hi) linked.1 linked.2
          (Nat.lt_of_le_of_lt (unplaced_le hfirst.looks) hd)
        exact ⟨_, .next hfirst ho hrest⟩
    | func | module | component | type => exact ⟨_, .unsupported nofun⟩

theorem exists_resolves (closed : Closed sources names) (depth : Nat) (plan : Plan) (stores : Array Store)
    (name : String) (hd : unplaced names plan < depth) (hn : name ∈ names) :
    ∃ run, Resolves fuel maxMemoryBytes sources plan stores name run := by
  induction depth generalizing plan stores name with
  | zero => exact absurd hd (Nat.not_lt_zero _)
  | succ depth ih =>
    -- only a name without a slot leads further, and inside there is one such name less
    cases hs : plan.slots.lookup name with
    | some slot =>
      cases slot with
      | loading => exact ⟨_, .loading hs⟩
      | loaded number => exact ⟨_, .loaded hs⟩
    | none =>
      cases hp : sources.provider name with
      | error e => exact ⟨_, .absent hs hp⟩
      | ok c =>
        have hlt := unplaced_fill_lt hn hs .loading
        obtain ⟨inner, hl⟩ := exists_links ih c.imports (closed name c hp) stores []
          (Nat.lt_of_lt_of_le hlt (Nat.le_of_lt_succ hd))
        exact ⟨_, .located hs hp hl⟩

end ComponentHost.Recursion
