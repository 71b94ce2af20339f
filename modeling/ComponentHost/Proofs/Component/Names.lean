import ComponentHost.Component.File
import ComponentHost.Proofs.Component.Definitions
import Mathlib.Data.List.Nodup

/-! # Names in components that are accepted

Whatever text or file a component comes from, no import name in it comes twice, and no member of an
imported instance does. -/
set_option autoImplicit false

namespace ComponentHost.Component

/-- No import name comes twice, nor does the name of a member in an imported instance. -/
structure DistinctNames (c : Component) : Prop where
  imports : c.importNames.Nodup
  members : ∀ i ∈ c.imports, ∀ members, i.2 = .interface members → (members.map Prod.fst).Nodup

/-- A component that can come from a text or a file: the checks accept its definitions, or it is the
empty one. -/
def Accepted (c : Component) : Prop := c = empty ∨ ∃ definitions, check definitions = .ok c

/-! ## Names in a scope -/

/-- The members of an instance have names apart. -/
def MembersApart (t : ExternType) : Prop :=
  ∀ members, t = .interface members → (members.map Prod.fst).Nodup

namespace Scope

theorem externType_yields (scope : Scope) (i : Wat.Item Nat) :
    Yields (scope.externType i) MembersApart := by
  cases i with
  | func use =>
    rw [externType]
    exact .bind fun _ _ => .ok (by intro _ h; cases h)
  | interface exports =>
    rw [externType]
    refine .bind fun types _ => .bind fun _ hn => .ok ?_
    rintro _ ⟨⟩
    exact (checkNames_ok hn).1
  | module | component | type =>
    rw [externType]
    exact .ok (by intro _ h; cases h)

/-- The imports of a scope have names apart, and so have their members. -/
structure NamesApart (scope : Scope) : Prop where
  imports : (scope.imports.map Prod.fst).Nodup
  members : ∀ i ∈ scope.imports, MembersApart i.2

theorem NamesApart.of_imports {scope scope' : Scope} (h : scope.NamesApart)
    (he : scope'.imports = scope.imports) : scope'.NamesApart :=
  ⟨he ▸ h.imports, he ▸ h.members⟩

theorem NamesApart.add {scope scope' : Scope} {name : String} {t : ExternType} (h : scope.NamesApart)
    (he : scope'.imports = scope.imports ++ [(name, t)])
    (hn : checkName (scope.imports.map Prod.fst) name = .ok ()) (ht : MembersApart t) :
    scope'.NamesApart where
  imports := by
    rw [he]
    exact nodup_of_checkName hn h.imports t
  members := by
    intro i hi
    rw [he] at hi
    rcases List.mem_append.mp hi with hi | hi
    · exact h.members i hi
    · rw [List.mem_singleton.mp hi]
      exact ht

theorem NamesApart.defines {scope scope' : Scope} (hd : scope.Defines scope') (h : scope.NamesApart) :
    scope'.NamesApart := by
  cases hd with
  | beside ha => exact h.of_imports ha.imports
  | «import» ht hn => exact h.add (by simp) hn (externType_yields scope _ _ ht)
  | lift | interface | «alias» | «export» => exact h.of_imports (by simp)

end Scope

/-! ## Accepted components -/

theorem Accepted.distinctNames {c : Component} (h : c.Accepted) : c.DistinctNames := by
  rcases h with rfl | ⟨definitions, h⟩
  · exact ⟨List.nodup_nil, by simp [empty]⟩
  · have none : Scope.empty.NamesApart := ⟨List.nodup_nil, by simp [Scope.empty]⟩
    obtain ⟨scope, hs, he, -, -⟩ := Scope.check_yields Scope.NamesApart.defines none definitions c h
    refine ⟨?_, fun i hi => hs.members i (he ▸ hi)⟩
    rw [importNames, he]
    exact hs.imports

theorem parse_accepted {text : String} {c : Component} (h : parse text = .ok c) : c.Accepted := by
  unfold parse at h
  split at h
  · cases h
  · cases h
  · next definitions _ =>
    refine .inr ⟨definitions, ?_⟩
    cases hc : check definitions with
    | error reason => simp [hc, Except.mapError] at h
    | ok c' => simpa [hc, Except.mapError] using h

theorem ofBytes_accepted {content : List UInt8} {c : Component} (h : ofBytes content = .ok c) :
    c.Accepted := by
  unfold ofBytes at h
  split at h
  · split at h
    · exact .inl (Except.ok.inj h).symm
    · cases h
  · split at h
    · cases h
    · exact parse_accepted h

theorem load_accepted {fs : FileSystem} {path : Path} {c : Component} (h : load fs path = .ok c) :
    c.Accepted := by
  unfold load at h
  split at h
  · cases h
  · exact ofBytes_accepted h

end ComponentHost.Component
