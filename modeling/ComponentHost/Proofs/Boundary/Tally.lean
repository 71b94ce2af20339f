import ComponentHost.Boundary.Load
import ComponentHost.Boundary.Use

/-! # The counts of a boundary

A boundary that has so many owners and holders outside counts one holder more while it is active, and its
callback is there until it is unloaded or its last owner goes. Taking a share, giving one back, unloading
and using what is loaded keep this. -/
set_option autoImplicit false

namespace ComponentHost.Boundary

/-! ## What the operations leave alone -/

@[simp] theorem fire_owners (b : Boundary) : b.fire.owners = b.owners := by
  unfold fire
  split <;> rfl

@[simp] theorem fire_holders (b : Boundary) : b.fire.holders = b.holders := by
  unfold fire
  split <;> rfl

@[simp] theorem fire_content (b : Boundary) : b.fire.content = b.content := by
  unfold fire
  split <;> rfl

@[simp] theorem fire_hasCallback (b : Boundary) : b.fire.hasCallback = false := by
  unfold fire
  split
  · rfl
  · next h => exact Bool.eq_false_iff.mpr h

@[simp] theorem fire_fired (b : Boundary) : b.fire.fired = b.fired + b.hasCallback.toNat := by
  unfold fire
  split
  · next h => simp [h]
  · next h => simp [Bool.eq_false_iff.mpr h]

@[simp] theorem empty_owners (b : Boundary) (content : Content) :
    (b.empty content).owners = b.owners := by
  unfold empty
  split <;> rfl

@[simp] theorem empty_content (b : Boundary) (content : Content) :
    (b.empty content).content = content := by
  unfold empty
  split <;> rfl

@[simp] theorem empty_hasCallback (b : Boundary) (content : Content) :
    (b.empty content).hasCallback = b.hasCallback := by
  unfold empty
  split <;> rfl

@[simp] theorem empty_fired (b : Boundary) (content : Content) :
    (b.empty content).fired = b.fired := by
  unfold empty
  split <;> rfl

@[simp] theorem empty_holders (b : Boundary) (content : Content) :
    (b.empty content).holders = b.holders - b.isActive.toNat := by
  unfold empty isActive lifecycle
  cases b.content <;> simp [Content.lifecycle]

theorem lifecycle_of_content {b b' : Boundary} (h : b.content = b'.content) :
    b.lifecycle = b'.lifecycle := congrArg Content.lifecycle h

/-! ## Tallies -/

/-- The counts of a boundary with `n` owners and `m` holders outside. -/
structure Tallied (b : Boundary) (n m : Nat) : Prop where
  owners : b.owners = n
  holders : b.holders = m + b.isActive.toNat
  active : b.isActive = true → 0 < n
  callback : b.hasCallback = true ↔ b.lifecycle ≠ .unloadRequested ∧ 0 < n
  fired : b.fired + b.hasCallback.toNat = 1

theorem make_tallied (id : Id) (baseDir : Path) (maxMemoryBytes : Option Nat)
    (loaded : Option (CompiledScript × Linked)) :
    (make id baseDir maxMemoryBytes loaded).Tallied (if loaded.isSome then 2 else 1)
      (if loaded.isSome then 1 else 0) := by
  cases loaded with
  | none => constructor <;> simp [make, isActive, lifecycle, Content.lifecycle]
  | some loaded => constructor <;> simp [make, isActive, lifecycle, Content.lifecycle]

variable {b : Boundary} {n m : Nat}

/-- A boundary that differs only in its counts is tallied by them, as long as an owner stays. -/
theorem Tallied.recount (h : b.Tallied n m) {n' m' : Nat} (hn : 0 < n' ↔ 0 < n) :
    ({ b with owners := n', holders := m' + b.isActive.toNat } : Boundary).Tallied n' m' where
  owners := rfl
  holders := rfl
  active := fun ha => hn.mpr (h.active ha)
  callback := h.callback.trans (and_congr_right fun _ => hn.symm)
  fired := h.fired

theorem Tallied.acquire (h : b.Tallied n m) (share : Share) (hs : share.owns = true → 0 < n) :
    (b.acquire share).Tallied (n + share.owns.toNat) (m + share.holds.toNat) := by
  have hn : 0 < n + share.owns.toNat ↔ 0 < n := by
    cases ho : share.owns with
    | false => simp
    | true => simp [hs ho]
  have hm : b.holders + share.holds.toNat = m + share.holds.toNat + b.isActive.toNat := by
    rw [h.holders]
    omega
  have hb : b.acquire share = { b with
      owners := n + share.owns.toNat
      holders := m + share.holds.toNat + b.isActive.toNat } := by
    unfold Boundary.acquire
    rw [hm, h.owners]
  rw [hb]
  exact h.recount hn

@[simp] theorem requestUnload_lifecycle (b : Boundary) :
    b.requestUnload.lifecycle = .unloadRequested := by
  simp [Boundary.requestUnload, lifecycle, Content.lifecycle]

theorem Tallied.requestUnload (h : b.Tallied n m) : b.requestUnload.Tallied n m := by
  have hl := requestUnload_lifecycle b
  have ha : b.requestUnload.isActive = false := by simp [isActive, hl]
  constructor
  · simp [Boundary.requestUnload, h.owners]
  · rw [ha]
    simp [Boundary.requestUnload, h.holders]
  · simp [ha]
  · rw [hl]
    simp [Boundary.requestUnload]
  · simpa [Boundary.requestUnload] using h.fired

theorem abandoned_lifecycle (content : Content) : content.abandoned.lifecycle ≠ .active := by
  cases content <;> simp [Content.abandoned, Content.lifecycle]

/-- The last owner leaves nothing loaded behind. -/
theorem Tallied.abandon (h : b.Tallied n m) {b' : Boundary} {m' : Nat} (hc : b'.content = b.content)
    (ho : b'.owners = 0) (hh : b'.holders = m' + b.isActive.toNat)
    (hf : b'.fired + b'.hasCallback.toNat = b.fired + b.hasCallback.toNat) :
    (b'.empty b'.content.abandoned).fire.Tallied 0 m' := by
  have hl : ((b'.empty b'.content.abandoned).fire).lifecycle ≠ .active := by
    simpa [lifecycle] using abandoned_lifecycle b'.content
  have ha : ((b'.empty b'.content.abandoned).fire).isActive = false := by simpa [isActive] using hl
  have hb : b'.isActive = b.isActive := by
    unfold isActive
    rw [lifecycle_of_content hc]
  constructor
  · simp [ho]
  · rw [ha]
    simp [hh, hb]
  · simp [ha]
  · simp
  · simpa [hf] using h.fired

theorem Tallied.release (h : b.Tallied n m) (share : Share) (hs : share.owns = true → 0 < n)
    (ht : share.holds = true → 0 < m) :
    (b.release share).Tallied (n - share.owns.toNat) (m - share.holds.toNat) := by
  have hm : b.holders - share.holds.toNat = m - share.holds.toNat + b.isActive.toNat := by
    rw [h.holders]
    cases hh : share.holds with
    | false => simp
    | true =>
      have := ht hh
      simp only [Bool.toNat_true]
      omega
  unfold Boundary.release
  simp only
  split
  · next hlast =>
    simp only [Bool.and_eq_true, decide_eq_true_eq] at hlast
    have hn : n - share.owns.toNat = 0 := by rw [← h.owners, hlast.2]
    rw [hn]
    exact h.abandon rfl hlast.2 hm rfl
  · next hmore =>
    have hn : 0 < n - share.owns.toNat ↔ 0 < n := by
      cases ho : share.owns with
      | false => simp
      | true =>
        have := hs ho
        simp only [ho, h.owners, Bool.true_and, decide_eq_true_eq, Bool.toNat_true] at hmore ⊢
        omega
    rw [hm, h.owners]
    exact h.recount hn

theorem release_content_of_owners {b : Boundary} {share : Share}
    (h : 0 < (b.release share).owners) : (b.release share).content = b.content := by
  unfold Boundary.release at h ⊢
  dsimp only at h ⊢
  split at h
  · next hlast =>
    simp only [Bool.and_eq_true, decide_eq_true_eq] at hlast
    rw [fire_owners, empty_owners, hlast.2] at h
    exact absurd h (Nat.lt_irrefl 0)
  · next hmore => rw [if_neg hmore]

/-! ## Using what is loaded -/

@[simp] theorem withProviders_lifecycle (b : Boundary) (providers : Array Store) :
    (b.withProviders providers).lifecycle = b.lifecycle := by
  unfold withProviders
  split
  · next h => simp [lifecycle, h, Content.lifecycle]
  · rfl

@[simp] theorem withProviders_owners (b : Boundary) (providers : Array Store) :
    (b.withProviders providers).owners = b.owners := by
  unfold withProviders
  split <;> rfl

@[simp] theorem withProviders_holders (b : Boundary) (providers : Array Store) :
    (b.withProviders providers).holders = b.holders := by
  unfold withProviders
  split <;> rfl

@[simp] theorem withProviders_hasCallback (b : Boundary) (providers : Array Store) :
    (b.withProviders providers).hasCallback = b.hasCallback := by
  unfold withProviders
  split <;> rfl

@[simp] theorem withProviders_fired (b : Boundary) (providers : Array Store) :
    (b.withProviders providers).fired = b.fired := by
  unfold withProviders
  split <;> rfl

theorem Tallied.withProviders (h : b.Tallied n m) (providers : Array Store) :
    (b.withProviders providers).Tallied n m := by
  have ha : (b.withProviders providers).isActive = b.isActive := by simp [isActive]
  constructor
  · simp [h.owners]
  · simp [ha, h.holders]
  · simpa [ha] using h.active
  · simpa using h.callback
  · simpa using h.fired

theorem lifecycle_ne_active_iff {b : Boundary} :
    b.lifecycle ≠ .active ↔ ∀ linked, b.content ≠ .active linked := by
  unfold lifecycle
  cases b.content <;> simp [Content.lifecycle]

theorem withProviders_of_not_active {b : Boundary} (h : b.lifecycle ≠ .active)
    (providers : Array Store) : b.withProviders providers = b := by
  unfold withProviders
  split
  · next linked hc => exact absurd hc (lifecycle_ne_active_iff.mp h linked)
  · rfl

theorem withProviders_self {b : Boundary} {linked : Linked} (h : b.content = .active linked) :
    b.withProviders linked.providers = b := by
  unfold withProviders
  rw [h]
  cases b
  cases h
  rfl

/-- How the making of an instance ends. -/
inductive Instantiated (b : Boundary) (fuel : Nat) : Boundary → Except EntryPointError Store → Prop where
  | unloaded (hn : b.lifecycle ≠ .active) : Instantiated b fuel b (.error .unloaded)
  | trapped {linked : Linked} {visit : Visit} {trap : Trap} (hc : b.content = .active linked)
      (hv : linked.instantiate fuel b.maxMemoryBytes = .ok visit) :
      Instantiated b fuel (b.withProviders visit.providers) (.error (.instantiation trap))
  | made {linked : Linked} {visit : Visit} (hc : b.content = .active linked)
      (hv : linked.instantiate fuel b.maxMemoryBytes = .ok visit) :
      Instantiated b fuel (b.withProviders visit.providers) (.ok visit.store)

theorem instantiate_cases {b b' : Boundary} {fuel : Nat} {r : Except EntryPointError Store}
    (h : b.instantiate fuel = .ok (b', r)) : b.Instantiated fuel b' r := by
  unfold instantiate at h
  split at h
  · next linked hc =>
    split at h
    · cases h
    · next visit hv =>
      split at h
      · cases h
        exact .trapped hc hv
      · cases h
        exact .made hc hv
  · next hc =>
    cases h
    exact .unloaded (lifecycle_ne_active_iff.mpr hc)

/-- How a call ends: without a run, so that nothing changes, or with what a run of the machine comes to. -/
inductive Executed (b : Boundary) (fuel : Nat) (store : Store) (entry : EntryPoint) (argument : String)
    (token : Option Token) (signals : Signals) : Execution → Prop where
  | unloaded (hn : b.lifecycle ≠ .active) :
      Executed b fuel store entry argument token signals ⟨b, store, signals, .error .unloaded⟩
  | cancelled (hf : token.any signals.hasFired = true) :
      Executed b fuel store entry argument token signals ⟨b, store, signals, .error .cancelled⟩
  | missing {e : InvocationError} (hm : missing? store entry = some e) :
      Executed b fuel store entry argument token signals ⟨b, store, signals, .error e⟩
  | run {linked : Linked} {visit : Visit} (hc : b.content = .active linked)
      (hv : Machine.invoke fuel linked.providers store signals entry.interface entry.function
        [.string argument] 1 token = .ok visit)
      (hf : token.any signals.hasFired = false) (hm : missing? store entry = none) :
      Executed b fuel store entry argument token signals
        ⟨b.withProviders visit.providers, visit.store, visit.signals,
          outcome (token.any visit.signals.hasFired) visit.result⟩

theorem execute_cases {b : Boundary} {fuel : Nat} {store : Store} {entry : EntryPoint}
    {argument : String} {token : Option Token} {signals : Signals} {e : Execution}
    (h : b.execute fuel store entry argument token signals = .ok e) :
    b.Executed fuel store entry argument token signals e := by
  unfold execute at h
  split at h
  · next linked hc =>
    split at h
    · next hf =>
      cases h
      exact .cancelled hf
    · next hf =>
      split at h
      · next hm =>
        cases h
        exact .missing hm
      · next hm =>
        split at h
        · cases h
        · next visit hv =>
          cases h
          exact .run hc hv (Bool.eq_false_iff.mpr hf) hm
  · next hc =>
    cases h
    exact .unloaded (lifecycle_ne_active_iff.mpr hc)

/-- Making an instance changes nothing but the stores of the providers. -/
theorem instantiate_providers {b b' : Boundary} {fuel : Nat} {r : Except EntryPointError Store}
    (h : b.instantiate fuel = .ok (b', r)) : ∃ providers, b' = b.withProviders providers := by
  cases instantiate_cases h with
  | unloaded hn => exact ⟨#[], (withProviders_of_not_active hn #[]).symm⟩
  | trapped | made => exact ⟨_, rfl⟩

theorem exists_withProviders_eq (b : Boundary) : ∃ providers, b = b.withProviders providers := by
  by_cases hn : b.lifecycle = .active
  · cases hc : b.content with
    | active linked => exact ⟨linked.providers, (withProviders_self hc).symm⟩
    | created | unloadRequested =>
      rw [lifecycle, hc] at hn
      cases hn
  · exact ⟨#[], (withProviders_of_not_active hn #[]).symm⟩

theorem execute_providers {b : Boundary} {fuel : Nat} {store : Store} {entry : EntryPoint}
    {argument : String} {token : Option Token} {signals : Signals} {e : Execution}
    (h : b.execute fuel store entry argument token signals = .ok e) :
    ∃ providers, e.boundary = b.withProviders providers := by
  cases execute_cases h with
  | unloaded | cancelled | missing => exact b.exists_withProviders_eq
  | run => exact ⟨_, rfl⟩

theorem load_make {fs : FileSystem} {fuel : Nat} {settings : Settings} {id scriptId : Id}
    {request : LoadRequest} {outcome : LoadOutcome}
    (h : load fs fuel settings id scriptId request = .ok (.ok outcome)) :
    ∃ baseDir maxMemoryBytes loaded, outcome.boundary = make id baseDir maxMemoryBytes loaded := by
  unfold load at h
  split at h
  · cases h
  · dsimp only at h
    split at h
    · cases h
    · split at h
      · cases h
      · cases h
        exact ⟨_, _, _, rfl⟩

/-! ## What the counts say -/

theorem Tallied.isLive_iff (h : b.Tallied n m) : b.isLive = true ↔ 0 < n ∨ 0 < m := by
  have hactive := h.active
  simp only [isLive, h.owners, h.holders, Bool.or_eq_true, decide_eq_true_eq]
  cases ha : b.isActive with
  | false => simp
  | true => simp [hactive ha]

/-- The callback has been called once when the boundary was unloaded or has no owner left. -/
theorem Tallied.fired_eq (h : b.Tallied n m) :
    b.fired = if b.lifecycle = .unloadRequested ∨ n = 0 then 1 else 0 := by
  have hc := h.callback
  have hf := h.fired
  cases hb : b.hasCallback with
  | false =>
    have hn : b.lifecycle = .unloadRequested ∨ n = 0 := by
      by_cases hl : b.lifecycle = .unloadRequested
      · exact Or.inl hl
      · refine Or.inr (Nat.eq_zero_of_not_pos fun hn => ?_)
        exact Bool.noConfusion (hb.symm.trans (hc.mpr ⟨hl, hn⟩))
    rw [if_pos hn]
    simpa [hb] using hf
  | true =>
    obtain ⟨hl, hn⟩ := hc.mp hb
    rw [if_neg (not_or.mpr ⟨hl, Nat.pos_iff_ne_zero.mp hn⟩)]
    simpa [hb] using hf

end ComponentHost.Boundary
