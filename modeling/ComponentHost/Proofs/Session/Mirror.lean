import ComponentHost.Proofs.Boundary.Tokens
import ComponentHost.Proofs.Session.Moves

/-! # Sessions with others in them

A session may have handles in it that are none of ours. `Session.Mirrors` compares it with a session that has
ours alone: their boundaries have other numbers there, and nothing else is different. What is done to a
handle of ours is done in both, and what is done to another handle changes nothing for ours. -/
set_option autoImplicit false

namespace ComponentHost

variable {own : Token → Prop} {ι ι' : Nat → Nat}

namespace Handle

/-- The handle, with its boundary under another number. -/
def renumber (ι : Nat → Nat) : Handle → Handle
  | .context b => .context (ι b)
  | .module b => .module (ι b)
  | .compiled b => .compiled (ι b)
  | .entry b e => .entry (ι b) e
  | .running b e store => .running (ι b) e store
  | .observer b => .observer (ι b)
  | .token t => .token t

/-- Whatever token a handle leads to is one of these. -/
def Bears (own : Token → Prop) : Handle → Prop
  | .running _ _ store => store.Bears own
  | .token t => own t
  | .context _ | .module _ | .compiled _ | .entry _ _ | .observer _ => True

/-- A handle to one of so many boundaries, with tokens of our own. -/
structure Inside (own : Token → Prop) (n : Nat) (h : Handle) : Prop where
  placed : ∀ b, h.boundary? = some b → b < n
  bears : h.Bears own

/-- A handle to one of so many boundaries, but not to any of ours, nor to a token of our own. -/
structure Outside (own : Token → Prop) (ι : Nat → Nat) (n all : Nat) (h : Handle) : Prop where
  placed : ∀ b, h.boundary? = some b → b < all
  boundary : ∀ b < n, h.boundary? ≠ some (ι b)
  token : ∀ t, h = .token t → ¬ own t

variable {h : Handle} {n all : Nat}

@[simp] theorem renumber_boundary? (h : Handle) : (h.renumber ι).boundary? = h.boundary?.map ι := by
  cases h <;> rfl

@[simp] theorem renumber_share (h : Handle) : (h.renumber ι).share = h.share := by
  cases h <;> rfl

@[simp] theorem renumber_isCloneable (h : Handle) :
    Session.isCloneable (h.renumber ι) = Session.isCloneable h := by
  cases h <;> rfl

theorem renumber_congr (he : ∀ b, h.boundary? = some b → ι' b = ι b) :
    h.renumber ι' = h.renumber ι := by
  cases h with
  | token => rfl
  | context | module | compiled | entry | running | observer => simp [renumber, he _ rfl]

theorem Inside.mono (hi : h.Inside own n) {k : Nat} (hk : n ≤ k) : h.Inside own k where
  placed := fun b hb => Nat.lt_of_lt_of_le (hi.placed b hb) hk
  bears := hi.bears

theorem inside_of {b : Nat} (hb : h.boundary? = some b) (hlt : b < n) (hh : h.Bears own) :
    h.Inside own n where
  placed := fun c hc => by
    cases hb.symm.trans hc
    exact hlt
  bears := hh

theorem outside_of {b : Nat} (hb : h.boundary? = some b) (hlt : b < all) (hne : ∀ c < n, b ≠ ι c) :
    h.Outside own ι n all where
  placed := fun c hc => by
    cases hb.symm.trans hc
    exact hlt
  boundary := fun c hc hs => hne c hc (Option.some.inj (hb.symm.trans hs))
  token := fun t ht => by
    subst ht
    cases hb

theorem token_inside {t : Token} (ht : own t) : (token t).Inside own n where
  placed := fun _ h => by cases h
  bears := ht

theorem token_outside {t : Token} (ht : ¬ own t) : (token t).Outside own ι n all where
  placed := fun _ h => by cases h
  boundary := fun _ _ h => by cases h
  token := fun t' h => by
    cases h
    exact ht

theorem Outside.ne (ho : h.Outside own ι n all) {b : Nat} (hb : h.boundary? = some b) :
    ∀ c < n, b ≠ ι c := fun c hc he => ho.boundary c hc (he ▸ hb)

/-- A handle to the boundary of another one is outside with it. -/
theorem Outside.of_boundary? {g : Handle} {b : Nat} (ho : g.Outside own ι n all)
    (hg : g.boundary? = some b) (hh : h.boundary? = some b) : h.Outside own ι n all :=
  outside_of hh (ho.placed b hg) (ho.ne hg)

end Handle

namespace Session

/-- A session has in it what another one has, and more. -/
structure Mirrors (mine : String → Bool) (own : Token → Prop) (ι : Nat → Nat) (s u : Session) : Prop where
  fs : s.fs = u.fs
  fuel : s.fuel = u.fuel
  /-- The boundaries of the second session have these numbers in the first. -/
  boundaries : ∀ b < u.boundaries.length, s.boundaries[ι b]? = u.boundaries[b]?
  injective : ∀ b < u.boundaries.length, ∀ c < u.boundaries.length, ι b = ι c → b = c
  bears : ∀ boundary ∈ u.boundaries, boundary.Bears own
  handles : s.handles.filter (mine ·.1) = u.handles.map fun e => (e.1, e.2.renumber ι)
  inside : ∀ e ∈ u.handles, e.2.Inside own u.boundaries.length
  outside : ∀ e ∈ s.handles, mine e.1 = false →
    e.2.Outside own ι u.boundaries.length s.boundaries.length
  loads : s.loads.filter (mine ·.1) = u.loads.map fun e => (e.1, e.2.map ι)
  recorded : ∀ e ∈ u.loads, ∀ b, e.2 = some b → b < u.boundaries.length
  fired : ∀ token, own token → s.fired.contains token = u.fired.contains token
  ids : u.nextId ≤ s.nextId
  tokens : u.nextToken ≤ s.nextToken

theorem start_mirrors (mine : String → Bool) (own : Token → Prop) (fs : FileSystem) (fuel : Nat) :
    (start fs fuel).Mirrors mine own id (start fs fuel) where
  fs := rfl
  fuel := rfl
  boundaries := nofun
  injective := nofun
  bears := nofun
  handles := rfl
  inside := nofun
  outside := nofun
  loads := rfl
  recorded := nofun
  fired := fun _ _ => rfl
  ids := Nat.le_refl _
  tokens := Nat.le_refl _

namespace Mirrors

variable {mine : String → Bool} {s u : Session} {name : String} {h : Handle}

/-! ## Handles that there are -/

theorem handle? (M : s.Mirrors mine own ι u) (hm : mine name = true) :
    s.handle? name = (u.handle? name).map (Handle.renumber ι) := by
  rw [Session.handle?, Session.handle?, ← Entries.lookup_map, ← M.handles]
  exact (Entries.lookup_filter s.handles mine hm).symm

theorem inside_of (M : s.Mirrors mine own ι u) (hh : u.handle? name = some h) :
    h.Inside own u.boundaries.length := M.inside _ (mem_of_handle? hh)

theorem handle?_cases (M : s.Mirrors mine own ι u) (hm : mine name = true) :
    (s.handle? name = none ∧ u.handle? name = none) ∨
      ∃ h, s.handle? name = some (h.renumber ι) ∧ u.handle? name = some h ∧
        h.Inside own u.boundaries.length := by
  have hs := M.handle? hm
  cases hu : u.handle? name with
  | none =>
    rw [hu] at hs
    exact .inl ⟨hs, rfl⟩
  | some h =>
    rw [hu] at hs
    exact .inr ⟨h, hs, rfl, M.inside_of hu⟩

theorem boundary_of (M : s.Mirrors mine own ι u) {b : Nat} (hb : b < u.boundaries.length) :
    ∃ boundary, s.boundaries[ι b]? = some boundary ∧ u.boundaries[b]? = some boundary ∧
      boundary.Bears own := by
  have hu := List.getElem?_eq_getElem hb
  exact ⟨_, (M.boundaries b hb).trans hu, hu, M.bears _ (List.getElem_mem hb)⟩

theorem outside_of (M : s.Mirrors mine own ι u) (hm : mine name = false)
    (hh : s.handle? name = some h) : h.Outside own ι u.boundaries.length s.boundaries.length :=
  M.outside _ (mem_of_handle? hh) hm

theorem token? (M : s.Mirrors mine own ι u) (hm : mine name = true) : s.token? name = u.token? name := by
  unfold Session.token?
  rw [M.handle? hm]
  cases u.handle? name with
  | none => rfl
  | some h => cases h <;> rfl

theorem own_of (M : s.Mirrors mine own ι u) {token : Token} (ht : u.token? name = some token) :
    own token := by
  unfold Session.token? at ht
  split at ht
  · next hh =>
    cases ht
    exact (M.inside_of hh).bears
  · cases ht

theorem not_own_of (M : s.Mirrors mine own ι u) (hm : mine name = false) {token : Token}
    (ht : s.token? name = some token) : ¬ own token := by
  unfold Session.token? at ht
  split at ht
  · next hh =>
    cases ht
    exact (M.outside_of hm hh).token _ rfl
  · cases ht

theorem lt_length (M : s.Mirrors mine own ι u) {b : Nat} (hb : b < u.boundaries.length) :
    ι b < s.boundaries.length := by
  refine (List.getElem?_eq_some_iff (a := u.boundaries[b]).mp ?_).1
  rw [M.boundaries b hb, List.getElem?_eq_getElem hb]

/-! ## What is done in both -/

theorem update (M : s.Mirrors mine own ι u) {b : Nat} (hb : b < u.boundaries.length)
    {f : Boundary → Boundary} (hf : ∀ boundary, boundary.Bears own → (f boundary).Bears own) :
    (s.update (ι b) f).Mirrors mine own ι (u.update b f) where
  fs := M.fs
  fuel := M.fuel
  boundaries := fun c hc => by
    rw [update_length] at hc
    have hiff : ι b = ι c ↔ b = c := ⟨M.injective b hb c hc, congrArg ι⟩
    rw [Session.update, Session.update, List.getElem?_modify, List.getElem?_modify, M.boundaries c hc]
    simp only [hiff]
  injective := by simpa using M.injective
  bears := fun boundary hm => by
    obtain ⟨i, hi⟩ := List.mem_iff_getElem?.mp hm
    rw [Session.update, List.getElem?_modify] at hi
    obtain ⟨old, ho, rfl⟩ := Option.map_eq_some_iff.mp hi
    have hold := M.bears old (List.mem_of_getElem? ho)
    split
    · exact hf old hold
    · exact hold
  handles := M.handles
  inside := by simpa using M.inside
  outside := by simpa using M.outside
  loads := M.loads
  recorded := by simpa using M.recorded
  fired := M.fired
  ids := M.ids
  tokens := M.tokens

theorem acquire (M : s.Mirrors mine own ι u) (hh : h.Inside own u.boundaries.length) :
    (s.acquire (h.renumber ι)).Mirrors mine own ι (u.acquire h) := by
  unfold Session.acquire
  rw [Handle.renumber_boundary?, Handle.renumber_share]
  cases hb : h.boundary? with
  | none => exact M
  | some b => exact M.update (hh.placed b hb) fun _ hb => hb.of_eq rfl

theorem release (M : s.Mirrors mine own ι u) (hh : h.Inside own u.boundaries.length) :
    (s.release (h.renumber ι)).Mirrors mine own ι (u.release h) := by
  unfold Session.release
  rw [Handle.renumber_boundary?, Handle.renumber_share]
  cases hb : h.boundary? with
  | none => exact M
  | some b => exact M.update (hh.placed b hb) fun _ hb => hb.release h.share

theorem remove (M : s.Mirrors mine own ι u) (name : String) :
    (s.remove name).Mirrors mine own ι (u.remove name) :=
  { M with
    handles := by
      rw [Session.remove, List.filter_comm, M.handles, List.filter_map]
      rfl
    inside := fun e he => M.inside e (List.mem_filter.mp he).1
    outside := fun e he => M.outside e (List.mem_filter.mp he).1 }

theorem drop (M : s.Mirrors mine own ι u) (hm : mine name = true) :
    (s.drop name).Mirrors mine own ι (u.drop name) := by
  unfold Session.drop
  rw [M.handle? hm]
  cases hh : u.handle? name with
  | none => exact M
  | some h => exact (M.remove name).release (M.inside_of hh)

theorem bind (M : s.Mirrors mine own ι u) (hm : mine name = true)
    (hh : h.Inside own u.boundaries.length) :
    (s.bind name (h.renumber ι)).Mirrors mine own ι (u.bind name h) :=
  have D := M.drop hm
  { D with
    handles := by
      rw [Session.bind, List.filter_cons_of_pos (by exact hm), D.handles]
      rfl
    inside := by
      rw [Session.bind]
      refine List.forall_mem_cons.mpr ⟨?_, D.inside⟩
      simpa using hh
    outside := by
      rw [Session.bind]
      exact List.forall_mem_cons.mpr ⟨fun hf => absurd hm (by simp [hf]), D.outside⟩ }

theorem add (M : s.Mirrors mine own ι u) (hm : mine name = true)
    (hh : h.Inside own u.boundaries.length) :
    (s.add name (h.renumber ι)).Mirrors mine own ι (u.add name h) :=
  (M.acquire hh).bind hm (by simpa using hh)

theorem replace (M : s.Mirrors mine own ι u) (hm : mine name = true)
    (hh : h.Inside own u.boundaries.length) :
    (s.replace name (h.renumber ι)).Mirrors mine own ι (u.replace name h) :=
  { M with
    handles := by
      have hkeep : ((mine ·.1) ∘ fun e : String × Handle =>
          if e.1 == name then (name, h.renumber ι) else e) = (mine ·.1) := by
        funext e
        simp only [Function.comp_apply]
        split
        · next he => rw [eq_of_beq he]
        · rfl
      rw [Session.replace, Session.replace, List.filter_map, hkeep, M.handles, List.map_map, List.map_map]
      refine List.map_congr_left fun e _ => ?_
      simp only [Function.comp_apply]
      split <;> rfl
    inside := fun e he => by
      rcases mem_replace he with he | rfl
      · exact M.inside e he
      · exact hh
    outside := fun e he hf => by
      rcases mem_replace he with he | rfl
      · exact M.outside e he hf
      · exact absurd hm (by simp [hf]) }

theorem recordLoad (M : s.Mirrors mine own ι u) (hm : mine name = true) {b : Option Nat}
    (hb : ∀ n, b = some n → n < u.boundaries.length) :
    (s.recordLoad name (b.map ι)).Mirrors mine own ι (u.recordLoad name b) :=
  { M with
    loads := by
      rw [Session.recordLoad, List.filter_cons_of_pos (by exact hm), List.filter_comm, M.loads,
        List.filter_map]
      rfl
    recorded := by
      rw [Session.recordLoad]
      exact List.forall_mem_cons.mpr ⟨hb, fun e he => M.recorded e (List.mem_filter.mp he).1⟩ }

/-- A boundary that is made in both has different numbers in them. -/
theorem append (M : s.Mirrors mine own ι u) (hid : s.nextId = u.nextId) {boundary : Boundary}
    (hb : boundary.Bears own) :
    ({ s with boundaries := s.boundaries ++ [boundary], nextId := s.nextId + 2 } : Session).Mirrors mine
      own (Function.update ι u.boundaries.length s.boundaries.length)
      { u with boundaries := u.boundaries ++ [boundary], nextId := u.nextId + 2 } := by
  have hold : ∀ b < u.boundaries.length,
      Function.update ι u.boundaries.length s.boundaries.length b = ι b :=
    fun b hb => Function.update_of_ne (Nat.ne_of_lt hb) _ _
  have hnew : Function.update ι u.boundaries.length s.boundaries.length u.boundaries.length =
      s.boundaries.length := Function.update_self ..
  have hcases : ∀ b < (u.boundaries ++ [boundary]).length,
      b < u.boundaries.length ∨ b = u.boundaries.length := by
    intro b hb
    rw [List.length_append, List.length_singleton] at hb
    omega
  constructor
  case fs => exact M.fs
  case fuel => exact M.fuel
  case boundaries =>
    intro b hb
    rcases hcases b hb with hlt | rfl
    · rw [hold b hlt, List.getElem?_append_left (M.lt_length hlt), List.getElem?_append_left hlt,
        M.boundaries b hlt]
    · rw [hnew, List.getElem?_concat_length, List.getElem?_concat_length]
  case injective =>
    intro b hb c hc he
    rcases hcases b hb with hlt | rfl <;> rcases hcases c hc with hlt' | rfl
    · rw [hold b hlt, hold c hlt'] at he
      exact M.injective b hlt c hlt' he
    · rw [hold b hlt, hnew] at he
      exact absurd he (Nat.ne_of_lt (M.lt_length hlt))
    · rw [hold c hlt', hnew] at he
      exact absurd he.symm (Nat.ne_of_lt (M.lt_length hlt'))
    · rfl
  case bears =>
    intro other ho
    rcases List.mem_append.mp ho with ho | ho
    · exact M.bears other ho
    · exact List.mem_singleton.mp ho ▸ hb
  case handles =>
    refine M.handles.trans (List.map_congr_left fun e he => ?_)
    rw [Handle.renumber_congr fun b hb => hold b ((M.inside e he).placed b hb)]
  case inside => exact fun e he => (M.inside e he).mono (by simp)
  case outside =>
    intro e he hf
    have ho := M.outside e he hf
    refine ⟨fun b hb => ?_, fun b hb hs => ?_, ho.token⟩
    · have := ho.placed b hb
      rw [List.length_append]
      omega
    · rcases hcases b hb with hlt | rfl
      · rw [hold b hlt] at hs
        exact ho.boundary b hlt hs
      · rw [hnew] at hs
        exact Nat.lt_irrefl _ (ho.placed _ hs)
  case loads =>
    refine M.loads.trans (List.map_congr_left fun e he => ?_)
    have hmap : e.2.map (Function.update ι u.boundaries.length s.boundaries.length) = e.2.map ι :=
      Option.map_congr fun b hb => hold b (M.recorded e he b hb)
    rw [hmap]
  case recorded =>
    intro e he b hb
    have := M.recorded e he b hb
    rw [List.length_append]
    omega
  case fired => exact M.fired
  case ids => exact Nat.le_of_eq (by rw [hid])
  case tokens => exact M.tokens

theorem place (M : s.Mirrors mine own ι u) (hid : s.nextId = u.nextId) (hm : mine name = true)
    (hmodule : mine (moduleName name) = true) {boundary : Boundary} (hb : boundary.Bears own) :
    (s.place name boundary).Mirrors mine own
      (Function.update ι u.boundaries.length s.boundaries.length) (u.place name boundary) := by
  have hnew : Function.update ι u.boundaries.length s.boundaries.length u.boundaries.length =
      s.boundaries.length := Function.update_self ..
  have hrecorded := (M.append hid hb).recordLoad hm (b := some u.boundaries.length)
    fun n hn => by cases hn; simp
  have hcontext := hrecorded.bind hm (h := .context u.boundaries.length)
    (Handle.inside_of rfl (by simp [Session.recordLoad]) trivial)
  rw [Option.map_some, Handle.renumber, hnew] at hcontext
  unfold Session.place
  dsimp only
  split
  · have hboth := hcontext.bind hmodule (h := .module u.boundaries.length)
      (Handle.inside_of rfl (by simp [Session.recordLoad]) trivial)
    rwa [Handle.renumber, hnew] at hboth
  · exact hcontext

theorem fireToken (M : s.Mirrors mine own ι u) {token : Token} (ht : own token) :
    (s.fireToken token).Mirrors mine own ι (u.fireToken token) := by
  unfold Session.fireToken
  rw [M.fired token ht]
  split
  · exact M
  · exact { M with fired := fun other ho => by rw [List.contains_cons, List.contains_cons, M.fired other ho] }

/-! ## What is done to others -/

theorem update_other (M : s.Mirrors mine own ι u) {b : Nat} (hb : ∀ c < u.boundaries.length, b ≠ ι c)
    (f : Boundary → Boundary) : (s.update b f).Mirrors mine own ι u :=
  { M with
    boundaries := fun c hc => by
      rw [Session.update, List.getElem?_modify, M.boundaries c hc]
      simp only [if_neg (hb c hc)]
      exact Option.map_id'
    outside := by simpa using M.outside }

theorem acquire_other (M : s.Mirrors mine own ι u)
    (hh : h.Outside own ι u.boundaries.length s.boundaries.length) :
    (s.acquire h).Mirrors mine own ι u := by
  unfold Session.acquire
  split
  · next b hb => exact M.update_other (fun c hc he => hh.boundary c hc (he ▸ hb)) _
  · exact M

theorem release_other (M : s.Mirrors mine own ι u)
    (hh : h.Outside own ι u.boundaries.length s.boundaries.length) :
    (s.release h).Mirrors mine own ι u := by
  unfold Session.release
  split
  · next b hb => exact M.update_other (fun c hc he => hh.boundary c hc (he ▸ hb)) _
  · exact M

theorem drop_other (M : s.Mirrors mine own ι u) (hm : mine name = false) :
    (s.drop name).Mirrors mine own ι u := by
  unfold Session.drop
  split
  · exact M
  · next h hh =>
    have hremoved : (s.remove name).Mirrors mine own ι u :=
      { M with
        handles := (Entries.filter_filter_ne hm s.handles).trans M.handles
        outside := fun e he => M.outside e (List.mem_filter.mp he).1 }
    exact hremoved.release_other (M.outside_of hm hh)

theorem bind_other (M : s.Mirrors mine own ι u) (hm : mine name = false)
    (hh : h.Outside own ι u.boundaries.length s.boundaries.length) :
    (s.bind name h).Mirrors mine own ι u :=
  have D := M.drop_other hm
  { D with
    handles := by
      rw [Session.bind, List.filter_cons_of_neg (by simp [hm]), D.handles]
    outside := by
      rw [Session.bind]
      refine List.forall_mem_cons.mpr ⟨fun _ => ?_, D.outside⟩
      simpa using hh }

theorem add_other (M : s.Mirrors mine own ι u) (hm : mine name = false)
    (hh : h.Outside own ι u.boundaries.length s.boundaries.length) :
    (s.add name h).Mirrors mine own ι u :=
  (M.acquire_other hh).bind_other hm (by simpa using hh)

theorem replace_other (M : s.Mirrors mine own ι u) (hm : mine name = false)
    (hh : h.Outside own ι u.boundaries.length s.boundaries.length) :
    (s.replace name h).Mirrors mine own ι u :=
  { M with
    handles := by
      have hfilter : ∀ entries : List (String × Handle),
          (entries.map fun e => if e.1 == name then (name, h) else e).filter (mine ·.1) =
            entries.filter (mine ·.1) := by
        intro entries
        induction entries with
        | nil => rfl
        | cons e entries ih =>
          rw [List.map_cons]
          split
          · next he =>
            simp only [List.filter_cons, eq_of_beq he, hm, ih]
            rfl
          · simp only [List.filter_cons, ih]
      exact (hfilter s.handles).trans M.handles
    outside := fun e he hf => by
      rcases mem_replace he with he | rfl
      · exact M.outside e he hf
      · exact hh }

theorem recordLoad_other (M : s.Mirrors mine own ι u) (hm : mine name = false) (b : Option Nat) :
    (s.recordLoad name b).Mirrors mine own ι u :=
  { M with
    loads := by
      rw [Session.recordLoad, List.filter_cons_of_neg (by simp [hm]), Entries.filter_filter_ne hm, M.loads] }

theorem place_other (M : s.Mirrors mine own ι u) (hm : mine name = false)
    (hmodule : mine (moduleName name) = false) (boundary : Boundary) :
    (s.place name boundary).Mirrors mine own ι u := by
  have happend : ({ s with
      boundaries := s.boundaries ++ [boundary], nextId := s.nextId + 2 } : Session).Mirrors mine own ι u :=
    { M with
      boundaries := fun b hb => by
        rw [List.getElem?_append_left (M.lt_length hb), M.boundaries b hb]
      outside := fun e he hf =>
        have ho := M.outside e he hf
        ⟨fun b hb => by rw [List.length_append]; exact Nat.lt_add_right _ (ho.placed b hb), ho.boundary,
          ho.token⟩
      ids := Nat.le_trans M.ids (Nat.le_add_right _ 2) }
  have hnew : ∀ b < u.boundaries.length, s.boundaries.length ≠ ι b :=
    fun b hb => Nat.ne_of_gt (M.lt_length hb)
  have hcontext := (happend.recordLoad_other hm (some s.boundaries.length)).bind_other hm
    (h := .context s.boundaries.length)
    (Handle.outside_of rfl (by simp [Session.recordLoad]) hnew)
  unfold Session.place
  dsimp only
  split
  · exact hcontext.bind_other hmodule (Handle.outside_of rfl (by simp [Session.recordLoad]) hnew)
  · exact hcontext

theorem fired_other (M : s.Mirrors mine own ι u) {fired : List Token}
    (hf : ∀ token, own token → fired.contains token = s.fired.contains token) :
    ({ s with fired } : Session).Mirrors mine own ι u :=
  { M with fired := fun token ht => (hf token ht).trans (M.fired token ht) }

theorem fireToken_other (M : s.Mirrors mine own ι u) {token : Token} (ht : ¬ own token) :
    (s.fireToken token).Mirrors mine own ι u := by
  unfold Session.fireToken
  split
  · exact M
  · refine M.fired_other fun other ho => ?_
    have hne : (other == token) = false := beq_eq_false_iff_ne.mpr fun he => ht (he ▸ ho)
    rw [List.contains_cons, hne, Bool.false_or]

/-! ## What can be seen -/

theorem liveness (M : s.Mirrors mine own ι u) : s.liveness.filter (mine ·.1) = u.liveness := by
  unfold Session.liveness
  rw [Entries.filter_filterMap mine, M.handles, List.filterMap_map]
  · refine List.filterMap_congr fun e he => ?_
    obtain ⟨name, h⟩ := e
    cases h with
    | observer b =>
      have hb := (M.inside _ he).placed b rfl
      simp only [Function.comp_apply, Handle.renumber, M.boundaries b hb]
    | _ => rfl
  · intro e x hx
    split at hx <;> cases hx
    rfl

theorem lifecycles (M : s.Mirrors mine own ι u) : s.lifecycles.filter (mine ·.1) = u.lifecycles := by
  unfold Session.lifecycles
  rw [Entries.filter_filterMap mine, M.handles, List.filterMap_map]
  · refine List.filterMap_congr fun e he => ?_
    obtain ⟨name, h⟩ := e
    cases h with
    | context b =>
      have hb := (M.inside _ he).placed b rfl
      simp only [Function.comp_apply, Handle.renumber, M.boundaries b hb]
    | _ => rfl
  · intro e x hx
    split at hx
    · obtain ⟨_, -, rfl⟩ := Option.map_eq_some_iff.mp hx
      rfl
    · cases hx

theorem callbacks (M : s.Mirrors mine own ι u) : s.callbacks.filter (mine ·.1) = u.callbacks := by
  unfold Session.callbacks
  rw [List.filter_map]
  refine (congrArg _ M.loads).trans ?_
  rw [List.map_map]
  refine List.map_congr_left fun e he => ?_
  obtain ⟨name, b⟩ := e
  cases b with
  | none => rfl
  | some b =>
    have hb := M.recorded _ he b rfl
    simp only [Function.comp_apply, Option.map_some, Option.bind_some, M.boundaries b hb]

end Mirrors

end Session

end ComponentHost
