import ComponentHost.Proofs.Dependency.Plan

/-! # Which names are looked up

The making of a plan with a record of the names that it looks up, in order. A name is looked up when it
has no slot yet, and has one from then on, so no name is looked up twice; and only names are looked up that
are reached. -/
set_option autoImplicit false

namespace ComponentHost.Plan

/-! ## Plans with a record -/

/-- `linkImports`, with a record of the names that were looked up. -/
def linkImportsLogged (number : Plan → String → List String × Plan × Except LinkError Nat) (plan : Plan)
    (links : List (String × Nat)) : List (String × Component.ExternType) →
      List String × Plan × Except LinkError (List (String × Nat))
  | [] => ([], plan, .ok links)
  | (name, .interface members) :: rest =>
    match number plan name with
    | (log, plan, .error e) => (log, plan, .error e)
    | (log, plan, .ok n) =>
      if (links.lookup name).isSome then (log, plan, .error (.linkedTwice name))
      else
        match checkMembers name [] members with
        | .error e => (log, plan, .error e)
        | .ok () =>
          let (more, left) := linkImportsLogged number plan (links ++ [(name, n)]) rest
          (log ++ more, left)
  | (name, _) :: _ => ([], plan, .error (.unsupportedImport name))

/-- `resolve`, with a record of the names that were looked up. -/
def resolveLogged (sources : Sources) :
    Nat → Plan → String → List String × Plan × Except LinkError Nat
  | 0, plan, name => ([], plan, .error (.cycle name))
  | depth + 1, plan, name =>
    match plan.slots.lookup name with
    | some (.loaded number) => ([], plan, .ok number)
    | some .loading => ([], plan, .error (.cycle name))
    | none =>
      let plan := plan.fill name .loading
      match sources.provider name with
      | .error e => ([name], plan, .error e)
      | .ok component =>
        match linkImportsLogged (resolveLogged sources depth) plan [] component.imports with
        | (log, plan, .error e) => (name :: log, plan, .error e)
        | (log, plan, .ok links) =>
          let number := plan.providers.length
          (name :: log, plan.add ⟨name, component, links⟩, .ok number)

/-- The names that are looked up while a plan for a script is made. -/
def lookups (sources : Sources) (script : Component) : List String :=
  (linkImportsLogged (resolveLogged sources ((sources.names script).length + 1)) empty []
    script.imports).1

variable {sources : Sources}

/-! ## The record changes nothing -/

theorem linkImportsLogged_snd {number : Plan → String → Plan × Except LinkError Nat}
    {logged : Plan → String → List String × Plan × Except LinkError Nat}
    (h : ∀ plan name, (logged plan name).2 = number plan name)
    (imports : List (String × Component.ExternType)) (plan : Plan) (links : List (String × Nat)) :
    (linkImportsLogged logged plan links imports).2 = linkImports number plan links imports := by
  induction imports generalizing plan links with
  | nil => rfl
  | cons i rest ih =>
    obtain ⟨import', t⟩ := i
    cases t with
    | interface members =>
      rw [linkImportsLogged, linkImports, ← h]
      split
      · next hl => rw [hl]
      · next log middle n hl =>
        rw [hl]
        dsimp only
        split
        · rfl
        · cases checkMembers import' [] members with
          | error e => rfl
          | ok u => exact ih middle (links ++ [(import', n)])
    | func | module | component | type => rfl

theorem resolveLogged_snd (depth : Nat) (plan : Plan) (name : String) :
    (resolveLogged sources depth plan name).2 = resolve sources depth plan name := by
  induction depth generalizing plan name with
  | zero => rfl
  | succ depth ih =>
    rw [resolveLogged, resolve]
    cases plan.slots.lookup name with
    | some slot => cases slot <;> rfl
    | none =>
      dsimp only
      cases sources.provider name with
      | error e => rfl
      | ok component =>
        dsimp only
        rw [← linkImportsLogged_snd ih component.imports]
        split
        · next hl => rw [hl]
        · next hl => rw [hl]

/-! ## No name is looked up twice -/

/-- Names without a slot were looked up, each once, and these are the ones that have one now. -/
structure Looks (plan plan' : Plan) (log : List String) : Prop where
  nodup : log.Nodup
  fresh : ∀ name ∈ log, plan.slots.lookup name = none
  slots : ∀ name, plan'.slots.lookup name = none ↔ plan.slots.lookup name = none ∧ name ∉ log

variable {plan plan' plan'' : Plan} {log log' : List String} {name : String}

theorem Looks.nil (plan : Plan) : Looks plan plan [] := ⟨List.nodup_nil, by simp, by simp⟩

theorem Looks.append (h : Looks plan plan' log) (h' : Looks plan' plan'' log') :
    Looks plan plan'' (log ++ log') where
  nodup := by
    refine List.nodup_append.mpr ⟨h.nodup, h'.nodup, ?_⟩
    rintro name hl _ hl' rfl
    exact ((h.slots name).mp (h'.fresh name hl')).2 hl
  fresh := by
    intro name hl
    rcases List.mem_append.mp hl with hl | hl
    · exact h.fresh name hl
    · exact ((h.slots name).mp (h'.fresh name hl)).1
  slots := by
    intro name
    rw [h'.slots, h.slots, List.mem_append, not_or, and_assoc]

theorem looks_fill (slot : Slot) (h : plan.slots.lookup name = none) :
    Looks plan (plan.fill name slot) [name] where
  nodup := List.nodup_singleton name
  fresh := by simpa using h
  slots := by
    intro other
    by_cases ho : other = name
    · subst ho
      simp
    · rw [lookup_fill_of_ne plan slot ho]
      simp [ho]

/-- A provider whose name was looked up fills the slot that the name has. -/
theorem Looks.add (h : Looks plan plan' log) {p : Provider} (hn : p.name ∈ log) :
    Looks plan (plan'.add p) log where
  nodup := h.nodup
  fresh := h.fresh
  slots := by
    intro other
    rw [add_slots]
    by_cases ho : other = p.name
    · subst ho
      simp [hn]
    · rw [lookup_fill_of_ne plan' _ ho, h.slots]

theorem linkImportsLogged_looks
    {number : Plan → String → List String × Plan × Except LinkError Nat}
    (h : ∀ plan name, Looks plan (number plan name).2.1 (number plan name).1)
    (imports : List (String × Component.ExternType)) (plan : Plan) (links : List (String × Nat)) :
    Looks plan (linkImportsLogged number plan links imports).2.1
      (linkImportsLogged number plan links imports).1 := by
  induction imports generalizing plan links with
  | nil => exact .nil plan
  | cons i rest ih =>
    obtain ⟨import', t⟩ := i
    cases t with
    | interface members =>
      have hn := h plan import'
      rw [linkImportsLogged]
      split
      · next hl => rwa [hl] at hn
      · next log middle n hl =>
        rw [hl] at hn
        split
        · exact hn
        · split
          · exact hn
          · exact hn.append (ih middle _)
    | func | module | component | type => exact .nil plan

theorem resolveLogged_looks (depth : Nat) (plan : Plan) (name : String) :
    Looks plan (resolveLogged sources depth plan name).2.1 (resolveLogged sources depth plan name).1 := by
  induction depth generalizing plan name with
  | zero => exact .nil plan
  | succ depth ih =>
    rw [resolveLogged]
    split
    · exact .nil plan
    · exact .nil plan
    · next hs =>
      have hfill := looks_fill .loading hs
      dsimp only
      split
      · exact hfill
      · next component _ =>
        have himports := linkImportsLogged_looks ih component.imports (plan.fill name .loading) []
        split
        · next hl =>
          rw [hl] at himports
          exact hfill.append himports
        · next log middle links hl =>
          rw [hl] at himports
          exact (hfill.append himports).add List.mem_cons_self

/-! ## Only what is reached is looked up -/

theorem linkImportsLogged_reaches {P : String → Prop}
    {number : Plan → String → List String × Plan × Except LinkError Nat}
    (imports : List (String × Component.ExternType))
    (h : ∀ plan, ∀ name ∈ imports.map Prod.fst, ∀ other ∈ (number plan name).1, P other) (plan : Plan)
    (links : List (String × Nat)) : ∀ other ∈ (linkImportsLogged number plan links imports).1, P other := by
  induction imports generalizing plan links with
  | nil => exact fun _ => nofun
  | cons i rest ih =>
    obtain ⟨import', t⟩ := i
    have hrest : ∀ plan, ∀ name ∈ rest.map Prod.fst, ∀ other ∈ (number plan name).1, P other :=
      fun plan name hn => h plan name (List.mem_cons_of_mem _ hn)
    cases t with
    | interface members =>
      have hn := h plan import' List.mem_cons_self
      rw [linkImportsLogged]
      split
      · next hl => rwa [hl] at hn
      · next hl =>
        rw [hl] at hn
        split
        · exact hn
        · split
          · exact hn
          · intro other ho
            rcases List.mem_append.mp ho with ho | ho
            · exact hn other ho
            · exact ih hrest _ _ other ho
    | func | module | component | type => exact fun _ => nofun

theorem resolveLogged_reaches (depth : Nat) (plan : Plan) (name : String) :
    ∀ other ∈ (resolveLogged sources depth plan name).1,
      Relation.ReflTransGen sources.Imports name other := by
  induction depth generalizing plan name with
  | zero => exact fun _ => nofun
  | succ depth ih =>
    rw [resolveLogged]
    split
    · exact fun _ => nofun
    · exact fun _ => nofun
    · dsimp only
      split
      · simp [Relation.ReflTransGen.refl]
      · next component hc =>
        have hp := ((Sources.provider_eq_ok_iff name component).mp hc).1
        have hinside : ∀ plan, ∀ import' ∈ component.importNames,
            ∀ other ∈ (resolveLogged sources depth plan import').1,
              Relation.ReflTransGen sources.Imports name other :=
          fun plan import' hi other ho => .head ⟨component, hp, hi⟩ (ih plan import' other ho)
        have himports := linkImportsLogged_reaches component.imports hinside (plan.fill name .loading) []
        split
        · next hl =>
          rw [hl] at himports
          exact List.forall_mem_cons.mpr ⟨.refl, himports⟩
        · next hl =>
          rw [hl] at himports
          exact List.forall_mem_cons.mpr ⟨.refl, himports⟩

/-! ## The lookups for a script -/

variable {script : Component}

theorem lookups_nodup (sources : Sources) (script : Component) : (lookups sources script).Nodup :=
  (linkImportsLogged_looks (resolveLogged_looks _) script.imports empty []).nodup

theorem mem_lookups_iff {outcome : Except LinkError (List (String × Nat))}
    (h : ofScript sources script = (plan, outcome)) :
    name ∈ lookups sources script ↔ plan.slots.lookup name ≠ none := by
  have hl : Looks empty (linkImportsLogged (resolveLogged sources ((sources.names script).length + 1))
      empty [] script.imports).2.1 (lookups sources script) :=
    linkImportsLogged_looks (resolveLogged_looks _) script.imports empty []
  rw [linkImportsLogged_snd (resolveLogged_snd _) script.imports empty []] at hl
  rw [ofScript] at h
  rw [h] at hl
  rw [ne_eq, hl.slots, not_and_not_right]
  exact ⟨fun hm _ => hm, fun hm => hm rfl⟩

theorem reaches_of_mem_lookups (h : name ∈ lookups sources script) : sources.Reaches script name := by
  refine linkImportsLogged_reaches (P := fun name => sources.Reaches script name) script.imports ?_ _ _
    name h
  exact fun plan root hr other ho => ⟨root, hr, resolveLogged_reaches _ plan root other ho⟩

end ComponentHost.Plan
