import ComponentHost.Proofs.Boundary.Aging
import ComponentHost.Proofs.Boundary.Presence
import ComponentHost.Proofs.Machine.Signals

/-! # Tokens in boundaries

The stores of a boundary never get a token but from a call of the boundary. So what a call comes to does not
depend on which tokens of others have fired. -/
set_option autoImplicit false

namespace ComponentHost

variable {own : Token → Prop}

namespace Linked

theorem instantiateAll_bears {fuel : Nat} {maxMemoryBytes : Option Nat} {stores : Array Store}
    {providers : List Provider} (h : instantiateAll fuel maxMemoryBytes #[] providers = .ok (.ok stores)) :
    ∀ s ∈ stores, s.Bears own :=
  instantiateAll_forall (fun hs hv => Machine.instantiate_bears hs (Store.bears_of_none rfl) hv)
    (fun _ hm => absurd hm (Array.not_mem_empty _)) h

end Linked

namespace Boundary

/-- The tokens in the providers of a boundary are from these, as long as it is active. -/
def Bears (own : Token → Prop) (b : Boundary) : Prop :=
  ∀ linked, b.content = .active linked → ∀ p ∈ linked.providers, p.Bears own

variable {b b' : Boundary}

theorem Bears.of_eq (hb : b.Bears own) (h : b'.content = b.content) : b'.Bears own :=
  fun linked hc => hb linked (h.symm.trans hc)

theorem bears_of_not_active (h : b.lifecycle ≠ .active) : b.Bears own :=
  fun linked hc => absurd hc (lifecycle_ne_active_iff.mp h linked)

theorem Bears.release (hb : b.Bears own) (share : Share) : (b.release share).Bears own := by
  rcases release_content b share with h | h
  · exact hb.of_eq h
  · refine bears_of_not_active ?_
    rw [lifecycle, h]
    exact abandoned_lifecycle b.content

theorem requestUnload_bears (b : Boundary) : b.requestUnload.Bears own := by
  refine bears_of_not_active ?_
  rw [requestUnload_lifecycle]
  exact Lifecycle.noConfusion

theorem withProviders_bears {providers : Array Store} (h : ∀ p ∈ providers, p.Bears own) :
    (b.withProviders providers).Bears own := by
  unfold withProviders
  split
  · intro linked hc
    cases hc
    exact h
  · next hc => exact fun linked he => absurd he (hc linked)

theorem load_bears {fs : FileSystem} {fuel : Nat} {settings : Settings} {id scriptId : Id}
    {request : LoadRequest} {outcome : LoadOutcome}
    (h : load fs fuel settings id scriptId request = .ok (.ok outcome)) : outcome.boundary.Bears own := by
  intro linked hc
  obtain ⟨manifest, script, -, hl⟩ := load_linked h hc
  obtain ⟨plan, -, hi, -⟩ := Linked.link_ok hl
  exact Linked.instantiateAll_bears hi

theorem instantiate_bears {fuel : Nat} {r : Except EntryPointError Store} (hb : b.Bears own)
    (h : b.instantiate fuel = .ok (b', r)) :
    b'.Bears own ∧ ∀ store, r = .ok store → store.Bears own := by
  cases instantiate_cases h with
  | unloaded => exact ⟨hb, fun _ => nofun⟩
  | trapped hc hv =>
    obtain ⟨-, hproviders⟩ := Machine.instantiate_bears (hb _ hc) (Store.bears_of_none rfl) hv
    exact ⟨withProviders_bears hproviders, fun _ => nofun⟩
  | made hc hv =>
    obtain ⟨hstore, hproviders⟩ := Machine.instantiate_bears (hb _ hc) (Store.bears_of_none rfl) hv
    refine ⟨withProviders_bears hproviders, fun store hs => ?_⟩
    cases hs
    exact hstore

end Boundary

/-- Executions that are the same, but for which tokens have fired that are none of these. -/
structure Execution.Alike (own : Token → Prop) (e e' : Execution) : Prop where
  boundary : e.boundary = e'.boundary
  store : e.store = e'.store
  signals : e.signals.Agree own e'.signals
  result : e.result = e'.result
  bears : e.boundary.Bears own ∧ e.store.Bears own

namespace Boundary

variable {b : Boundary} {fuel : Nat} {store : Store} {entry : EntryPoint} {argument : String}
  {token : Option Token} {signals signals' : Signals}

/-- Other tokens make no difference to a call. -/
theorem execute_alike (hb : b.Bears own) (hs : store.Bears own) (ht : ∀ t, token = some t → own t)
    (h : signals.Agree own signals') (fuel : Nat) (entry : EntryPoint) (argument : String) :
    Together (Execution.Alike own) (b.execute fuel store entry argument token signals)
      (b.execute fuel store entry argument token signals') := by
  unfold execute
  rw [← h.any ht]
  split
  · next linked hc =>
    split
    · exact .ok ⟨rfl, rfl, h, rfl, hb, hs⟩
    · split
      · exact .ok ⟨rfl, rfl, h, rfl, hb, hs⟩
      · have hrun := Machine.invoke_alike fuel (hb linked hc) hs h ht entry.interface entry.function
          [.string argument] 1
        generalize Machine.invoke fuel linked.providers store signals _ _ _ _ _ = run at hrun ⊢
        generalize Machine.invoke fuel linked.providers store signals' _ _ _ _ _ = run' at hrun ⊢
        cases hrun with
        | error stall => exact .error stall
        | ok hv =>
          refine .ok ⟨?_, hv.store, hv.signals, ?_, withProviders_bears hv.bears.2, hv.bears.1⟩
          · rw [hv.providers]
          · dsimp only
            rw [hv.signals.any ht, hv.result]
  · exact .ok ⟨rfl, rfl, h, rfl, hb, hs⟩

/-- A call fires no token but that of its alarm. -/
theorem execute_fires {e : Execution} (h : b.execute fuel store entry argument token signals = .ok e)
    {other : Token} (ho : ∀ n, signals.alarm ≠ some (n, other)) :
    e.signals.hasFired other = signals.hasFired other := by
  cases execute_cases h with
  | unloaded | cancelled | missing => rfl
  | run _ hv => exact Machine.invoke_fires hv ho

end Boundary

end ComponentHost
