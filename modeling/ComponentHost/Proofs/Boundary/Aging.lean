import ComponentHost.Proofs.Boundary.Tally

/-! # How a boundary ages

A boundary that is not active will never be, and only unloading makes it unloaded: `Ages` says so of two
boundaries, and all else that happens to a boundary makes it age. One that is not active refuses every
use and stays as it is; one that is active never answers that it was unloaded. -/
set_option autoImplicit false

namespace ComponentHost.Boundary

/-! ## Ages -/

/-- What may become of a boundary by anything but unloading. -/
structure Ages (b b' : Boundary) : Prop where
  unloaded : b'.lifecycle = .unloadRequested ↔ b.lifecycle = .unloadRequested
  active : b'.lifecycle = .active → b.lifecycle = .active

theorem Ages.of_eq {b b' : Boundary} (h : b'.lifecycle = b.lifecycle) : b.Ages b' where
  unloaded := by rw [h]
  active := h.symm.trans

theorem Ages.trans {b b' b'' : Boundary} (h : b.Ages b') (h' : b'.Ages b'') : b.Ages b'' where
  unloaded := h'.unloaded.trans h.unloaded
  active := fun ha => h.active (h'.active ha)

theorem release_content (b : Boundary) (share : Share) :
    (b.release share).content = b.content ∨
      (b.release share).content = b.content.abandoned := by
  unfold release
  dsimp only
  split
  · right
    rw [fire_content, empty_content]
  · left
    rfl

theorem ages_acquire (b : Boundary) (share : Share) : b.Ages (b.acquire share) := .of_eq rfl

theorem ages_release (b : Boundary) (share : Share) : b.Ages (b.release share) := by
  rcases release_content b share with h | h
  · exact .of_eq (lifecycle_of_content h)
  · have hl : (b.release share).lifecycle = b.content.abandoned.lifecycle :=
      congrArg Content.lifecycle h
    constructor <;> rw [hl, lifecycle] <;> cases b.content <;>
      simp [Content.abandoned, Content.lifecycle]

theorem ages_withProviders (b : Boundary) (providers : Array Store) :
    b.Ages (b.withProviders providers) := .of_eq (withProviders_lifecycle b providers)

theorem make_lifecycle (id : Id) (baseDir : Path) (maxMemoryBytes : Option Nat)
    (loaded : Option (CompiledScript × Linked)) :
    (make id baseDir maxMemoryBytes loaded).lifecycle ≠ .unloadRequested := by
  cases loaded <;> exact Lifecycle.noConfusion

/-! ## What is refused -/

theorem resolve_ne_unloaded (contract : Contract) (component : Component) :
    contract.resolve component ≠ .error .unloaded := by
  unfold Contract.resolve
  split <;> exact nofun

theorem outcome_ne_unloaded (isCancelled : Bool) (result : Except Trap (List Value)) :
    outcome isCancelled result ≠ .error .unloaded := by
  unfold outcome
  split
  · exact nofun
  · exact nofun
  · cases isCancelled <;> exact nofun

theorem missing?_ne_unloaded {store : Store} {entry : EntryPoint} {e : InvocationError}
    (h : missing? store entry = some e) : e ≠ .unloaded := by
  unfold missing? at h
  split at h
  · cases h
    exact nofun
  · split at h
    · cases h
    · cases h
      exact nofun

variable {b : Boundary}

theorem resolve_of_not_active (h : b.lifecycle ≠ .active) (contract : Contract) :
    b.resolve contract = .error .unloaded := by
  unfold resolve
  split
  · next linked hc => exact absurd hc (lifecycle_ne_active_iff.mp h linked)
  · rfl

theorem instantiate_of_not_active (h : b.lifecycle ≠ .active) (fuel : Nat) :
    b.instantiate fuel = .ok (b, .error .unloaded) := by
  unfold instantiate
  split
  · next linked hc => exact absurd hc (lifecycle_ne_active_iff.mp h linked)
  · rfl

theorem execute_of_not_active (h : b.lifecycle ≠ .active) (fuel : Nat) (store : Store)
    (entry : EntryPoint) (argument : String) (token : Option Token) (signals : Signals) :
    b.execute fuel store entry argument token signals =
      .ok ⟨b, store, signals, .error .unloaded⟩ := by
  unfold execute
  split
  · next linked hc => exact absurd hc (lifecycle_ne_active_iff.mp h linked)
  · rfl

theorem not_active_of_resolve {contract : Contract} (h : b.resolve contract = .error .unloaded) :
    b.lifecycle ≠ .active := by
  unfold resolve at h
  split at h
  · exact absurd h (resolve_ne_unloaded contract _)
  · next hc => exact lifecycle_ne_active_iff.mpr hc

theorem not_active_of_instantiate {b' : Boundary} {fuel : Nat}
    (h : b.instantiate fuel = .ok (b', .error .unloaded)) : b.lifecycle ≠ .active := by
  cases instantiate_cases h with
  | unloaded hn => exact hn

theorem not_active_of_execute {fuel : Nat} {store : Store} {entry : EntryPoint} {argument : String}
    {token : Option Token} {signals : Signals} {e : Execution}
    (h : b.execute fuel store entry argument token signals = .ok e)
    (he : e.result = .error .unloaded) : b.lifecycle ≠ .active := by
  cases execute_cases h with
  | unloaded hn => exact hn
  | cancelled => cases he
  | missing hm =>
    cases he
    exact absurd rfl (missing?_ne_unloaded hm)
  | run => exact absurd he (outcome_ne_unloaded _ _)

end ComponentHost.Boundary
