import ComponentHost.Proofs.Dependency.Recursion

/-! # What the recursion of linking comes to

While the recursion goes on, every instance is made as soon as the imports of its component are linked. This
comes to what a plan comes to whose instances are made afterwards: where one of them cannot be made, the rest
of the plan is never looked at, and is of no account. So the room that a plan is made with is always enough. -/
set_option autoImplicit false

namespace ComponentHost.Recursion

variable {fuel : Nat} {maxMemoryBytes : Option Nat} {sources : Sources} {names : List String} {plan : Plan}
  {stores : Array Store} {name : String}

/-! ## Plans, import by import -/

theorem linkImports_cons (number : Plan → String → Plan × Except LinkError Nat) (plan : Plan)
    (links : List (String × Nat)) (import' : String) (members rest : List (String × Component.ExternType)) :
    Plan.linkImports number plan links ((import', .interface members) :: rest) =
      match number plan import' with
      | (plan, .error e) => (plan, .error e)
      | (plan, .ok n) =>
        match checkImport links import' members with
        | .error e => (plan, .error e)
        | .ok () => Plan.linkImports number plan (links ++ [(import', n)]) rest := by
  rw [Plan.linkImports]
  rcases number plan import' with ⟨middle, e | n⟩
  · rfl
  · unfold checkImport
    dsimp only
    split <;> rfl

/-- What comes of a name in a plan, once the imports of its component have numbers. -/
def enter (name : String) (c : Component) :
    Plan × Except LinkError (List (String × Nat)) → Plan × Except LinkError Nat
  | (plan, .error e) => (plan, .error e)
  | (plan, .ok links) => (plan.add ⟨name, c, links⟩, .ok plan.providers.length)

theorem resolve_of_provider {c : Component} (hs : plan.slots.lookup name = none)
    (hp : sources.provider name = .ok c) (depth : Nat) :
    Plan.resolve sources (depth + 1) plan name =
      enter name c (Plan.linkImports (Plan.resolve sources depth) (plan.fill name .loading) [] c.imports) := by
  rw [Plan.resolve, hs]
  dsimp only
  rw [hp]
  rfl

/-! ## Room enough -/

theorem linkImports_congr {number number' : Plan → String → Plan × Except LinkError Nat} {bound : Nat}
    (same : ∀ plan name, unplaced names plan < bound → name ∈ names → number plan name = number' plan name)
    (shrinks : ∀ plan name, unplaced names (number' plan name).1 ≤ unplaced names plan)
    {imports : List (String × Component.ExternType)} (hi : imports.map Prod.fst ⊆ names) {plan : Plan}
    (hb : unplaced names plan < bound) (links : List (String × Nat)) :
    Plan.linkImports number plan links imports = Plan.linkImports number' plan links imports := by
  induction imports generalizing plan links with
  | nil => rfl
  | cons i rest ih =>
    obtain ⟨import', t⟩ := i
    cases t with
    | interface members =>
      have hle := shrinks plan import'
      rw [linkImports_cons, linkImports_cons, same plan import' hb (hi List.mem_cons_self)]
      split
      · rfl
      · next middle n hn =>
        rw [hn] at hle
        split
        · rfl
        · exact ih (List.subset_of_cons_subset hi) (Nat.lt_of_le_of_lt hle hb) _
    | func | module | component | type => rfl

theorem unplaced_resolve_le (depth : Nat) (plan : Plan) (name : String) :
    unplaced names (Plan.resolve sources depth plan name).1 ≤ unplaced names plan := by
  rw [← Plan.resolveLogged_snd]
  exact unplaced_le (Plan.resolveLogged_looks depth plan name)

/-- How deep imports may be nested does not matter when it is more than there are names without a slot. -/
theorem resolve_congr (closed : Closed sources names) (depth depth' : Nat) (plan : Plan) (name : String)
    (hn : name ∈ names) (hd : unplaced names plan < depth) (hd' : unplaced names plan < depth') :
    Plan.resolve sources depth plan name = Plan.resolve sources depth' plan name := by
  induction depth generalizing depth' plan name with
  | zero => exact absurd hd (Nat.not_lt_zero _)
  | succ depth ih =>
    obtain ⟨depth', rfl⟩ := Nat.exists_eq_add_one_of_ne_zero (Nat.ne_zero_of_lt hd')
    cases hs : plan.slots.lookup name with
    | some slot => cases slot <;> simp only [Plan.resolve, hs]
    | none =>
      cases hp : sources.provider name with
      | error e => simp only [Plan.resolve, hs, hp]
      | ok c =>
        have hinner : ∀ plan' name', unplaced names plan' < unplaced names plan → name' ∈ names →
            Plan.resolve sources depth plan' name' = Plan.resolve sources depth' plan' name' :=
          fun plan' name' hlt hn' => ih depth' plan' name' hn' (Nat.lt_of_lt_of_le hlt (Nat.le_of_lt_succ hd))
            (Nat.lt_of_lt_of_le hlt (Nat.le_of_lt_succ hd'))
        rw [resolve_of_provider hs hp, resolve_of_provider hs hp, linkImports_congr hinner
          (unplaced_resolve_le depth') (closed name c hp) (unplaced_fill_lt hn hs .loading)]

/-! ## Plans keep their providers -/

/-- A way of getting numbers for names keeps the providers that a plan has. -/
def KeepsProviders (number : Plan → String → Plan × Except LinkError Nat) : Prop :=
  ∀ plan name, plan.providers <+: (number plan name).1.providers

variable {number : Plan → String → Plan × Except LinkError Nat}

theorem linkImports_providers (keeps : KeepsProviders number)
    (imports : List (String × Component.ExternType)) (plan : Plan) (links : List (String × Nat)) :
    plan.providers <+: (Plan.linkImports number plan links imports).1.providers := by
  induction imports generalizing plan links with
  | nil => exact List.prefix_rfl
  | cons i rest ih =>
    obtain ⟨import', t⟩ := i
    cases t with
    | interface members =>
      have hfirst := keeps plan import'
      rw [linkImports_cons]
      split
      · next hl => rwa [hl] at hfirst
      · next middle n hl =>
        rw [hl] at hfirst
        split
        · exact hfirst
        · exact hfirst.trans (ih middle _)
    | func | module | component | type => exact List.prefix_rfl

theorem linkImports_cons_providers (keeps : KeepsProviders number) (plan : Plan)
    (links : List (String × Nat)) (import' : String) (members rest : List (String × Component.ExternType)) :
    (number plan import').1.providers <+:
      (Plan.linkImports number plan links ((import', .interface members) :: rest)).1.providers := by
  rw [linkImports_cons]
  split
  · next hl => simp [hl]
  · next middle n hl =>
    rw [hl]
    split
    · exact List.prefix_rfl
    · exact linkImports_providers keeps rest middle _

theorem enter_providers (name : String) (c : Component)
    (planned : Plan × Except LinkError (List (String × Nat))) :
    planned.1.providers <+: (enter name c planned).1.providers := by
  obtain ⟨plan, e | links⟩ := planned
  · exact List.prefix_rfl
  · exact List.prefix_append _ _

theorem resolve_providers (sources : Sources) (depth : Nat) : KeepsProviders (Plan.resolve sources depth) := by
  induction depth with
  | zero => exact fun _ _ => List.prefix_rfl
  | succ depth ih =>
    intro plan name
    cases hs : plan.slots.lookup name with
    | some slot => cases slot <;> simp [Plan.resolve, hs]
    | none =>
      cases hp : sources.provider name with
      | error e => simp [Plan.resolve, hs, hp]
      | ok c =>
        rw [resolve_of_provider hs hp]
        exact (linkImports_providers ih c.imports (plan.fill name .loading) []).trans (enter_providers name c _)

/-! ## Instances as they come -/

theorem settle_eq_ok_iff {α : Type} {x : Except Stall (Except LinkError α)} {a : α} :
    settle x = .ok a ↔ x = .ok (.ok a) := by
  rcases x with _ | _ | _ <;> simp [settle]

theorem instantiateAll_append_halt {providers : List Provider} (rest : List Provider) {halt : Halt}
    (h : settle (Linked.instantiateAll fuel maxMemoryBytes stores providers) = .error halt) :
    settle (Linked.instantiateAll fuel maxMemoryBytes stores (providers ++ rest)) = .error halt := by
  induction providers generalizing stores with
  | nil => cases h
  | cons p providers ih =>
    rw [Linked.instantiateAll] at h
    rw [List.cons_append, Linked.instantiateAll]
    split at h
    · exact h
    · split at h
      · exact h
      · exact ih h

/-- A call comes to what a plan comes to when the instances of its new providers are made afterwards. -/
inductive Follows (fuel : Nat) (maxMemoryBytes : Option Nat) {α : Type} (before : List Provider)
    (stores : Array Store) (left : Plan) : Except Halt (Array Store × α) → Plan × Except LinkError α → Prop where
  /-- The instance of a provider halts it, whatever else the plan would have come to. -/
  | halted {planned : Plan × Except LinkError α} {halt : Halt} (added : List Provider) :
      planned.1.providers = before ++ added →
      settle (Linked.instantiateAll fuel maxMemoryBytes stores added) = .error halt →
      Follows fuel maxMemoryBytes before stores left (.error halt) planned
  | failed {made : Array Store} {e : LinkError} (added : List Provider) :
      left.providers = before ++ added →
      Linked.instantiateAll fuel maxMemoryBytes stores added = .ok (.ok made) →
      Follows fuel maxMemoryBytes before stores left (.error (.error e)) (left, .error e)
  | answered {made : Array Store} {a : α} (added : List Provider) :
      left.providers = before ++ added →
      Linked.instantiateAll fuel maxMemoryBytes stores added = .ok (.ok made) →
      Follows fuel maxMemoryBytes before stores left (.ok (made, a)) (left, .ok a)

/-- A call that goes on where another has answered. -/
theorem Follows.behind {α : Type} {before added : List Provider} {middle left : Plan} {made : Array Store}
    {outcome : Except Halt (Array Store × α)} {planned : Plan × Except LinkError α}
    (hadded : middle.providers = before ++ added)
    (hmade : Linked.instantiateAll fuel maxMemoryBytes stores added = .ok (.ok made))
    (h : Follows fuel maxMemoryBytes middle.providers made left outcome planned) :
    Follows fuel maxMemoryBytes before stores left outcome planned := by
  cases h with
  | halted more hp hm =>
    rw [← Linked.instantiateAll_append hmade] at hm
    exact .halted (added ++ more) (by rw [hp, hadded, List.append_assoc]) hm
  | failed more hp hm =>
    rw [← Linked.instantiateAll_append hmade] at hm
    exact .failed (added ++ more) (by rw [hp, hadded, List.append_assoc]) hm
  | answered more hp hm =>
    rw [← Linked.instantiateAll_append hmade] at hm
    exact .answered (added ++ more) (by rw [hp, hadded, List.append_assoc]) hm

/-- A call that ends with one that was halted by an instance. -/
theorem Follows.of_halted {α : Type} {before added : List Provider} {planned left : Plan} {halt : Halt}
    {final : Plan × Except LinkError α} (hadded : planned.providers = before ++ added)
    (hhalt : settle (Linked.instantiateAll fuel maxMemoryBytes stores added) = .error halt)
    (grows : planned.providers <+: final.1.providers) :
    Follows fuel maxMemoryBytes before stores left (.error halt) final := by
  obtain ⟨more, hmore⟩ := grows
  refine .halted (added ++ more) ?_ (instantiateAll_append_halt more hhalt)
  rw [← hmore, hadded, List.append_assoc]

theorem Follows.provide {before : List Provider} {left : Plan}
    {outcome : Except Halt (Array Store × List (String × Nat))}
    {planned : Plan × Except LinkError (List (String × Nat))} (name : String) (c : Component)
    (h : Follows fuel maxMemoryBytes before stores left outcome planned) :
    Follows fuel maxMemoryBytes before stores (Recursion.provide fuel maxMemoryBytes name c left outcome).1
      (Recursion.provide fuel maxMemoryBytes name c left outcome).2 (enter name c planned) := by
  cases h with
  | halted added ha hm => exact .of_halted ha hm (enter_providers name c planned)
  | failed added ha hm => exact .failed added ha hm
  | answered added ha hm =>
    unfold Recursion.provide
    dsimp only
    split
    · next hi => exact .behind ha hm (.halted [_] rfl hi)
    · next hi => exact .behind ha hm (.answered [_] rfl (settle_eq_ok_iff.mp hi))

mutual

theorem Resolves.follows {plan : Plan} {stores : Array Store} {name : String} {run : Returned Nat}
    {depth : Nat} (closed : Closed sources names)
    (h : Resolves fuel maxMemoryBytes sources plan stores name run) (hn : name ∈ names)
    (hd : unplaced names plan < depth) :
    Follows fuel maxMemoryBytes plan.providers stores run.plan run.outcome (Plan.resolve sources depth plan name) := by
  obtain ⟨depth, rfl⟩ := Nat.exists_eq_add_one_of_ne_zero (Nat.ne_zero_of_lt hd)
  match h with
  | .loaded hs =>
    rw [Plan.resolve, hs]
    exact .answered [] (List.append_nil _).symm rfl
  | .loading hs =>
    rw [Plan.resolve, hs]
    exact .failed [] (List.append_nil _).symm rfl
  | .absent hs hp =>
    rw [Plan.resolve, hs, hp]
    exact .failed [] (List.append_nil _).symm rfl
  | .located hs hp hl =>
    have hlt := Nat.lt_of_lt_of_le (unplaced_fill_lt hn hs .loading) (Nat.le_of_lt_succ hd)
    rw [resolve_of_provider hs hp]
    exact (hl.follows closed (closed _ _ hp) hlt).provide _ _
termination_by structural h

theorem Links.follows {plan : Plan} {stores : Array Store} {links : List (String × Nat)}
    {imports : List (String × Component.ExternType)} {run : Returned (List (String × Nat))}
    {depth : Nat} (closed : Closed sources names)
    (h : Links fuel maxMemoryBytes sources plan stores links imports run)
    (hi : imports.map Prod.fst ⊆ names) (hd : unplaced names plan < depth) :
    Follows fuel maxMemoryBytes plan.providers stores run.plan run.outcome
      (Plan.linkImports (Plan.resolve sources depth) plan links imports) := by
  match h with
  | .done => exact .answered [] (List.append_nil _).symm rfl
  | .unsupported ht =>
    rw [Plan.linkImports_of_ne _ _ _ _ ht]
    exact .failed [] (List.append_nil _).symm rfl
  | .halted hr ho =>
    have hfirst := hr.follows closed (hi List.mem_cons_self) hd
    generalize hp : Plan.resolve sources depth plan _ = planned at hfirst
    generalize Returned.outcome _ = outcome at ho hfirst
    cases hfirst with
    | halted added ha hm =>
      cases ho
      -- the plan goes on behind the instance that halts the call, and only adds providers
      refine .of_halted ha hm ?_
      rw [← hp]
      exact linkImports_cons_providers (resolve_providers sources depth) plan links _ _ _
    | failed added ha hm =>
      cases ho
      rw [linkImports_cons, hp]
      exact .failed added ha hm
    | answered added ha hm =>
      rw [linkImports_cons, hp]
      unfold attach at ho
      dsimp only at ho ⊢
      generalize checkImport links _ _ = checked at ho ⊢
      cases checked with
      | error e =>
        cases ho
        exact .failed added ha hm
      | ok u => cases ho
  | .next hr ho hrest =>
    have hfirst := hr.follows closed (hi List.mem_cons_self) hd
    have hothers := hrest.follows closed (List.subset_of_cons_subset hi)
      (Nat.lt_of_le_of_lt (unplaced_le hr.looks) hd)
    generalize hp : Plan.resolve sources depth plan _ = planned at hfirst
    generalize Returned.outcome _ = outcome at ho hfirst
    cases hfirst with
    | halted | failed => cases ho
    | answered added ha hm =>
      rw [linkImports_cons, hp]
      unfold attach at ho
      dsimp only at ho ⊢
      generalize checkImport links _ _ = checked at ho ⊢
      cases checked with
      | error e => cases ho
      | ok u =>
        cases ho
        exact hothers.behind ha hm
termination_by structural h

end

/-! ## A script -/

/-- A list of providers whose instances are never done has one of which this is so. -/
theorem exists_stall {providers : List Provider} {stall : Stall}
    (h : Linked.instantiateAll fuel maxMemoryBytes stores providers = .error stall) :
    ∃ stores', ∃ p ∈ providers,
      Machine.instantiate fuel stores' (p.store maxMemoryBytes) = .error stall := by
  induction providers generalizing stores with
  | nil => cases h
  | cons p rest ih =>
    rw [Linked.instantiateAll] at h
    split at h
    · next hi =>
      cases h
      exact ⟨stores, p, List.mem_cons_self, hi⟩
    · split at h
      · cases h
      · obtain ⟨stores', q, hq, hi⟩ := ih h
        exact ⟨stores', q, List.mem_cons_of_mem p hq, hi⟩

variable {script : Component} {run : Returned (List (String × Nat))}

theorem settle_link
    (h : Follows fuel maxMemoryBytes [] #[] run.plan run.outcome (Plan.ofScript sources script)) :
    settle (Linked.link fuel sources maxMemoryBytes script) =
      run.outcome.map fun (stores, links) => ⟨script, stores, links⟩ := by
  unfold Linked.link
  generalize Plan.ofScript sources script = planned at h ⊢
  generalize run.outcome = outcome at h ⊢
  cases h with
  | halted added ha hm =>
    rw [List.nil_append] at ha
    dsimp only
    rw [ha]
    generalize Linked.instantiateAll _ _ _ _ = all at hm ⊢
    rcases all with stall | e | stores <;> cases hm
    · rfl
    · rfl
  | failed added ha hm | answered added ha hm =>
    rw [List.nil_append] at ha
    dsimp only
    rw [ha, hm]
    rfl

/-- Linking a script returns, and in one way only, whatever imports what. At no time are more calls of `link`
or of `resolve` open than there are import names, and one, and no name is located twice. It comes to what the
instances of a plan come to, and only code of such an instance can keep it from ending. -/
theorem link_returns (fuel : Nat) (maxMemoryBytes : Option Nat) (sources : Sources) (script : Component) :
    ∃ run, Links fuel maxMemoryBytes sources Plan.empty #[] [] script.imports run ∧
      (∀ other, Links fuel maxMemoryBytes sources Plan.empty #[] [] script.imports other → other = run) ∧
      run.links ≤ (sources.names script).length + 1 ∧
      run.resolves ≤ (sources.names script).length + 1 ∧
      run.located.Nodup ∧
      (settle (Linked.link fuel sources maxMemoryBytes script) =
        run.outcome.map fun (stores, links) => ⟨script, stores, links⟩) ∧
      (∀ more, Plan.linkImports (Plan.resolve sources ((sources.names script).length + 1 + more)) Plan.empty []
        script.imports = Plan.ofScript sources script) ∧
      ∀ stall, Linked.link fuel sources maxMemoryBytes script = .error stall →
        ∃ stores, ∃ p ∈ (Plan.ofScript sources script).1.providers,
          Machine.instantiate fuel stores (p.store maxMemoryBytes) = .error stall := by
  have closed := closed_names sources script
  have hi : script.importNames ⊆ sources.names script := importNames_subset_names sources script
  have hd : unplaced (sources.names script) Plan.empty < (sources.names script).length + 1 := by
    rw [unplaced_empty]
    exact Nat.lt_succ_self _
  obtain ⟨run, h⟩ := exists_links (exists_resolves closed _) script.imports hi #[] [] hd
  obtain ⟨hlinks, hresolves⟩ := h.depth_le closed hi
  rw [unplaced_empty] at hlinks hresolves
  refine ⟨run, h, fun other ho => ho.unique h, hlinks, hresolves, h.looks.nodup,
    settle_link (h.follows closed hi hd), fun more => ?_, fun stall hs => ?_⟩
  · refine linkImports_congr (fun plan name hlt hn => ?_) (unplaced_resolve_le _) hi hd []
    exact resolve_congr closed _ _ plan name hn (Nat.lt_add_right more hlt) hlt
  · unfold Linked.link at hs
    dsimp only at hs
    split at hs
    · next hall =>
      cases hs
      exact exists_stall hall
    · cases hs
    · cases hs

end ComponentHost.Recursion
