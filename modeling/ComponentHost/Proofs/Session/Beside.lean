import ComponentHost.Proofs.Session.Mirror

/-! # Steps beside others

The names of a session's handles have two sides, ours and that of others. A step on our side is answered as in
a session that has our handles alone, and a step on the other side changes nothing for ours. -/
set_option autoImplicit false

namespace ComponentHost

namespace SessionStep

/-- The names of the handles that a step uses or makes. -/
def names : SessionStep → List String
  | .load name _ _ => [name, Session.moduleName name]
  | .resolve of name _ => [of, name]
  | .instantiate of name => [of, name]
  | .execute of _ called _ => of :: called.toList
  | .token name => [name]
  | .cancel of => [of]
  | .observe of name => [of, name]
  | .unload of name => [of, name]
  | .compiled of name => [of, name]
  | .ids of => [of]
  | .clone of name => [of, name]
  | .drop of => [of]
  | .describe of => [of]
  | .wait of _ released called _ => of :: ((released.map Prod.fst).toList ++ called.toList)

/-- Whether all names of a step are on one side. -/
def isOn (side : String → Bool) (op : SessionStep) : Bool := op.names.all side

theorem names_ne_nil (op : SessionStep) : op.names ≠ [] := by
  cases op <;> exact List.cons_ne_nil _ _

variable {side : String → Bool} {op : SessionStep}

theorem isOn_iff : op.isOn side = true ↔ ∀ name ∈ op.names, side name = true := List.all_eq_true

theorem isOn_other_iff : op.isOn (!side ·) = true ↔ ∀ name ∈ op.names, side name = false := by
  simp only [isOn_iff, Bool.not_eq_true']

theorem isOn_eq_false (h : op.isOn (!side ·) = true) : op.isOn side = false := by
  obtain ⟨name, rest, hn⟩ := List.exists_cons_of_ne_nil op.names_ne_nil
  have hf := isOn_other_iff.mp h name (hn ▸ List.mem_cons_self)
  rw [isOn, hn, List.all_cons, hf, Bool.false_and]

end SessionStep

namespace Session

variable {mine : String → Bool} {own : Token → Prop} {ι : Nat → Nat} {s u t : Session} {a : SessionAnswer}

/-- The answers are the same, and the first session goes on to have the second one in it. -/
def Mirrored (mine : String → Bool) (own : Token → Prop) (x y : Session × SessionAnswer) : Prop :=
  x.2 = y.2 ∧ ∃ ι, x.1.Mirrors mine own ι y.1

namespace Mirrors

/-! ## Steps that are taken in both -/

theorem same (M : s.Mirrors mine own ι u) (a : SessionAnswer) :
    Together (Mirrored mine own) (s.same a) (u.same a) := .ok ⟨rfl, ι, M⟩

theorem bind_token? (M : s.Mirrors mine own ι u) {token : Option String}
    (ht : ∀ name ∈ token, mine name = true) :
    token.bind s.token? = token.bind u.token? ∧ ∀ t, token.bind u.token? = some t → own t := by
  cases token with
  | none => exact ⟨rfl, nofun⟩
  | some name => exact ⟨M.token? (ht name rfl), fun _ => M.own_of⟩

theorem load (M : s.Mirrors mine own ι u) (hid : s.nextId = u.nextId) {name : String}
    (hm : mine name = true) (hmodule : mine (moduleName name) = true) (settings : LoadSettings)
    (request : LoadRequest) :
    Together (Mirrored mine own) (s.load name settings request) (u.load name settings request) := by
  unfold Session.load
  split
  · exact .ok ⟨rfl, ι, M.recordLoad hm (b := none) nofun⟩
  · next settings _ =>
    have hl : Boundary.load s.fs s.fuel settings ⟨s.nextId⟩ ⟨s.nextId + 1⟩ request =
        Boundary.load u.fs u.fuel settings ⟨u.nextId⟩ ⟨u.nextId + 1⟩ request := by
      rw [M.fs, M.fuel, hid]
    rw [hl]
    split
    · exact .error _
    · exact .ok ⟨rfl, ι, M.recordLoad hm (b := none) nofun⟩
    · next outcome ho => exact .ok ⟨rfl, _, M.place hid hm hmodule (Boundary.load_bears ho)⟩

theorem instantiate (M : s.Mirrors mine own ι u) {of name : String} (hof : mine of = true)
    (hm : mine name = true) :
    Together (Mirrored mine own) (s.instantiate of name) (u.instantiate of name) := by
  unfold Session.instantiate
  rcases M.handle?_cases hof with ⟨hs, hu⟩ | ⟨h, hs, hu, hi⟩
  · rw [hs, hu]
    exact M.same _
  · rw [hs, hu]
    cases h with
    | entry b e =>
      have hb := hi.placed b rfl
      obtain ⟨boundary, hsb, hub, hbears⟩ := M.boundary_of hb
      dsimp only [Handle.renumber]
      rw [hsb, hub, M.fuel]
      dsimp only
      split
      · exact .error _
      · next boundary' error hr =>
        exact .ok ⟨rfl, ι, M.update hb fun _ _ => (Boundary.instantiate_bears hbears hr).1⟩
      · next boundary' store hr =>
        obtain ⟨hbears', hstore⟩ := Boundary.instantiate_bears hbears hr
        have hrunning : (Handle.running b e store).Inside own u.boundaries.length :=
          Handle.inside_of rfl hb (hstore store rfl)
        exact .ok ⟨rfl, ι, (M.update hb fun _ _ => hbears').add hm
          (h := .running b e store) (by simpa using hrunning)⟩
    | _ => exact M.same _

theorem execute (M : s.Mirrors mine own ι u) {of : String} {token : Option String} (hof : mine of = true)
    (ht : ∀ name ∈ token, mine name = true) (argument : String) (cancelAfter : Option Nat) :
    Together (Mirrored mine own) (s.execute of argument token cancelAfter)
      (u.execute of argument token cancelAfter) := by
  obtain ⟨htoken, hown⟩ := M.bind_token? ht
  rcases M.handle?_cases hof with ⟨hs, hu⟩ | ⟨h, hs, hu, hi⟩
  · unfold Session.execute
    rw [hs, hu]
    exact M.same _
  · cases h with
    | running b e store =>
      have hb := hi.placed b rfl
      obtain ⟨boundary, hsb, hub, hbears⟩ := M.boundary_of hb
      rw [execute_running hs hsb, execute_running hu hub, M.fuel, htoken]
      have hsignals : (Signals.mk s.fired (alarm (token.bind u.token?) cancelAfter)).Agree own
          ⟨u.fired, alarm (token.bind u.token?) cancelAfter⟩ := ⟨M.fired, rfl⟩
      have hexecuted := Boundary.execute_alike hbears hi.bears hown hsignals u.fuel e argument
      generalize Boundary.execute _ u.fuel store e argument _ ⟨s.fired, _⟩ = left at hexecuted ⊢
      generalize Boundary.execute _ u.fuel store e argument _ ⟨u.fired, _⟩ = right at hexecuted ⊢
      cases hexecuted with
      | error stall => exact .error stall
      | @ok x y hx =>
        have hrunning : (Handle.running b e x.store).Inside own u.boundaries.length :=
          Handle.inside_of rfl hb hx.bears.2
        have hreplaced := (M.update hb (f := fun _ => x.boundary) fun _ _ => hx.bears.1).replace hof
          (by simpa using hrunning)
        refine .ok ⟨congrArg SessionAnswer.executed hx.result, ι, ?_⟩
        dsimp only
        rw [← hx.boundary, ← hx.store]
        exact { hreplaced with fired := hx.signals.fired }
    | _ =>
      unfold Session.execute
      rw [hs, hu]
      exact M.same _

theorem course (M : s.Mirrors mine own ι u) {b : Nat} (hb : b < u.boundaries.length)
    {taken : Option (Handle × Nat)} (hi : ∀ x ∈ taken, x.1.Inside own u.boundaries.length)
    {token : Option Token} (ht : ∀ t, token = some t → own t) (boundary : Boundary)
    (cancelAfter : Option Nat) :
    s.course (ι b) boundary (taken.map fun x => (x.1.renumber ι, x.2)) token cancelAfter =
      u.course b boundary taken token cancelAfter := by
  unfold Session.course
  congr 1
  · cases taken with
    | none => rfl
    | some x =>
      have hiff : (x.1.renumber ι).boundary? = some (ι b) ↔ x.1.boundary? = some b := by
        rw [Handle.renumber_boundary?]
        cases hx : x.1.boundary? with
        | none => exact iff_of_false nofun nofun
        | some c =>
          have hc := (hi x rfl).placed c hx
          simp only [Option.map_some, Option.some.injEq]
          exact ⟨M.injective c hc b hb, congrArg ι⟩
      simp only [Option.map_some, hiff, Handle.renumber_share]
  · cases token with
    | none => rfl
    | some t => simp only [M.fired t (ht t rfl)]

theorem rung (M : s.Mirrors mine own ι u) {token : Option Token} (ht : ∀ t, token = some t → own t)
    (cancelAfter : Option Nat) (elapsed : Nat) :
    (s.rung token cancelAfter elapsed).Mirrors mine own ι (u.rung token cancelAfter elapsed) := by
  unfold Session.rung
  split
  · next called millis =>
    split
    · exact M.fireToken (ht called rfl)
    · exact M
  · exact M

theorem wait (M : s.Mirrors mine own ι u) {of : String} {released : Option (String × Nat)}
    {token : Option String} (hof : mine of = true) (hr : ∀ x ∈ released, mine x.1 = true)
    (ht : ∀ name ∈ token, mine name = true) (monitor : Monitor) (cancelAfter : Option Nat) :
    Together (Mirrored mine own) (s.wait of monitor released token cancelAfter)
      (u.wait of monitor released token cancelAfter) := by
  obtain ⟨htoken, hown⟩ := M.bind_token? ht
  unfold Session.wait
  rcases M.handle?_cases hof with ⟨hs, hu⟩ | ⟨h, hs, hu, hi⟩
  · rw [hs, hu]
    exact M.same _
  · rw [hs, hu, htoken]
    cases h with
    | observer b =>
      have hb := hi.placed b rfl
      obtain ⟨boundary, hsb, hub, -⟩ := M.boundary_of hb
      dsimp only [Handle.renumber]
      rw [hsb, hub]
      have htaken : (released.bind fun x => (s.handle? x.1).map fun h => (h, x.2)) =
          (released.bind fun x => (u.handle? x.1).map fun h => (h, x.2)).map
            fun x => (x.1.renumber ι, x.2) := by
        cases released with
        | none => rfl
        | some x =>
          simp only [Option.bind_some, M.handle? (hr x rfl), Option.map_map]
          rfl
      have hinside : ∀ x ∈ released.bind fun x => (u.handle? x.1).map fun h => (h, x.2),
          x.1.Inside own u.boundaries.length := by
        intro x hx
        obtain ⟨y, -, hy⟩ := Option.bind_eq_some_iff.mp hx
        obtain ⟨g, hg, rfl⟩ := Option.map_eq_some_iff.mp hy
        exact M.inside_of hg
      dsimp only
      rw [htaken, M.course hb hinside hown]
      cases released with
      | none => exact .ok ⟨rfl, ι, M.rung hown cancelAfter _⟩
      | some x => exact .ok ⟨rfl, ι, (M.drop (hr x rfl)).rung hown cancelAfter _⟩
    | _ => exact M.same _

theorem describe (M : s.Mirrors mine own ι u) {h : Handle} (hi : h.Inside own u.boundaries.length) :
    s.describe (h.renumber ι) = u.describe h := by
  cases h with
  | token t =>
    simp only [Handle.renumber, Session.describe]
    rw [M.fired t hi.bears]
  | context b | module b | compiled b | entry b | running b | observer b =>
    have hb := M.boundaries b (hi.placed b rfl)
    simp only [Handle.renumber, Session.describe, Handle.boundary?]
    change (s.boundaries[ι b]?).bind _ = (u.boundaries[b]?).bind _
    rw [hb]

theorem step_unload (M : s.Mirrors mine own ι u) {of name : String} (hof : mine of = true)
    (hm : mine name = true) :
    Together (Mirrored mine own) (s.step (.unload of name)) (u.step (.unload of name)) := by
  simp only [Session.step]
  rcases M.handle?_cases hof with ⟨hs, hu⟩ | ⟨h, hs, hu, hi⟩
  · rw [hs, hu]
    exact M.same _
  · rw [hs, hu]
    cases h with
    | context b =>
      have hb := hi.placed b rfl
      have hunloaded := M.update hb fun boundary _ => boundary.requestUnload_bears
      have hadded := (hunloaded.drop hof).add hm (h := .observer b)
        (Handle.inside_of rfl (by simpa using hb) trivial)
      obtain ⟨boundary, hsb, hub, -⟩ := hadded.boundary_of (b := b) (by simpa using hb)
      dsimp only [Handle.renumber] at hadded hsb ⊢
      rw [hsb, hub]
      exact .ok ⟨rfl, ι, hadded⟩
    | _ => exact M.same _

theorem step_clone (M : s.Mirrors mine own ι u) {of name : String} (hof : mine of = true)
    (hm : mine name = true) :
    Together (Mirrored mine own) (s.step (.clone of name)) (u.step (.clone of name)) := by
  simp only [Session.step]
  rcases M.handle?_cases hof with ⟨hs, hu⟩ | ⟨h, hs, hu, hi⟩
  · rw [hs, hu]
    exact M.same _
  · rw [hs, hu]
    dsimp only
    rw [Handle.renumber_isCloneable]
    split
    · exact .ok ⟨rfl, ι, M.add hm hi⟩
    · exact M.same _

theorem step_resolve (M : s.Mirrors mine own ι u) {of name : String} (hof : mine of = true)
    (hm : mine name = true) (contract : Contract) :
    Together (Mirrored mine own) (s.step (.resolve of name contract)) (u.step (.resolve of name contract)) := by
  simp only [Session.step]
  rcases M.handle?_cases hof with ⟨hs, hu⟩ | ⟨h, hs, hu, hi⟩
  · rw [hs, hu]
    exact M.same _
  · rw [hs, hu]
    cases h with
    | module b =>
      obtain ⟨boundary, hsb, hub, -⟩ := M.boundary_of (hi.placed b rfl)
      dsimp only [Handle.renumber]
      rw [hsb, hub]
      dsimp only
      split
      · exact M.same _
      · next entry _ =>
        have hinside : (Handle.entry b entry).Inside own u.boundaries.length :=
          Handle.inside_of rfl (hi.placed b rfl) trivial
        exact .ok ⟨rfl, ι, M.add hm hinside⟩
    | _ => exact M.same _

theorem step_observe (M : s.Mirrors mine own ι u) {of name : String} (hof : mine of = true)
    (hm : mine name = true) :
    Together (Mirrored mine own) (s.step (.observe of name)) (u.step (.observe of name)) := by
  simp only [Session.step]
  rcases M.handle?_cases hof with ⟨hs, hu⟩ | ⟨h, hs, hu, hi⟩
  · rw [hs, hu]
    exact M.same _
  · rw [hs, hu]
    cases h with
    | context b =>
      obtain ⟨boundary, hsb, hub, -⟩ := M.boundary_of (hi.placed b rfl)
      dsimp only [Handle.renumber]
      rw [hsb, hub]
      have hinside : (Handle.observer b).Inside own u.boundaries.length :=
        Handle.inside_of rfl (hi.placed b rfl) trivial
      exact .ok ⟨rfl, ι, M.add hm hinside⟩
    | _ => exact M.same _

theorem step_compiled (M : s.Mirrors mine own ι u) {of name : String} (hof : mine of = true)
    (hm : mine name = true) :
    Together (Mirrored mine own) (s.step (.compiled of name)) (u.step (.compiled of name)) := by
  simp only [Session.step]
  rcases M.handle?_cases hof with ⟨hs, hu⟩ | ⟨h, hs, hu, hi⟩
  · rw [hs, hu]
    exact M.same _
  · rw [hs, hu]
    cases h with
    | module b =>
      dsimp only [Handle.renumber]
      rw [M.boundaries b (hi.placed b rfl)]
      split
      · exact M.same _
      · have hinside : (Handle.compiled b).Inside own u.boundaries.length :=
          Handle.inside_of rfl (hi.placed b rfl) trivial
        exact .ok ⟨rfl, ι, M.add hm hinside⟩
    | _ => exact M.same _

theorem step_ids (M : s.Mirrors mine own ι u) {of : String} (hof : mine of = true) :
    Together (Mirrored mine own) (s.step (.ids of)) (u.step (.ids of)) := by
  simp only [Session.step]
  rcases M.handle?_cases hof with ⟨hs, hu⟩ | ⟨h, hs, hu, hi⟩
  · rw [hs, hu]
    exact M.same _
  · rw [hs, hu]
    cases h with
    | module b =>
      dsimp only [Handle.renumber]
      rw [M.boundaries b (hi.placed b rfl)]
      split
      · split <;> exact M.same _
      · exact M.same _
    | _ => exact M.same _

/-- A step on what is ours is answered in the same way in both, and leads to sessions of which one again
has the other in it. -/
theorem step (M : s.Mirrors mine own ι u) (hid : s.nextId = u.nextId)
    (htoken : s.nextToken = u.nextToken) {op : SessionStep} (hop : ∀ name ∈ op.names, mine name = true)
    (hnew : ∀ name, op = .token name → own ⟨s.nextToken⟩) :
    Together (Mirrored mine own) (s.step op) (u.step op) := by
  have hfirst : ∀ {name : String} {rest : List String}, op.names = name :: rest → mine name = true :=
    fun hn => hop _ (hn ▸ List.mem_cons_self)
  have hsecond : ∀ {name name' : String} {rest : List String}, op.names = name :: name' :: rest →
      mine name' = true := fun hn => hop _ (hn ▸ List.mem_cons_of_mem _ List.mem_cons_self)
  cases op with
  | load name settings request => exact M.load hid (hfirst rfl) (hsecond rfl) settings request
  | instantiate of name => exact M.instantiate (hfirst rfl) (hsecond rfl)
  | execute of argument called cancelAfter =>
    refine M.execute (hfirst rfl) (fun name hn => hop name ?_) argument cancelAfter
    exact List.mem_cons_of_mem _ (Option.mem_toList.mpr hn)
  | wait of monitor released called cancelAfter =>
    refine M.wait (hfirst rfl) (fun x hx => hop x.1 ?_) (fun name hn => hop name ?_) monitor cancelAfter
    · refine List.mem_cons_of_mem _ (List.mem_append_left _ (Option.mem_toList.mpr ?_))
      exact Option.mem_map_of_mem _ hx
    · exact List.mem_cons_of_mem _ (List.mem_append_right _ (Option.mem_toList.mpr hn))
  | token name =>
    have hnext : ({ s with nextToken := s.nextToken + 1 } : Session).Mirrors mine own ι
        { u with nextToken := u.nextToken + 1 } :=
      { M with tokens := Nat.succ_le_succ M.tokens }
    have hadded := hnext.add (hfirst rfl) (Handle.token_inside (hnew name rfl))
    refine .ok ⟨rfl, ι, ?_⟩
    rw [← htoken]
    rw [← htoken] at hadded
    exact hadded
  | cancel of =>
    simp only [Session.step, M.token? (hfirst rfl)]
    cases ht : u.token? of with
    | none => exact M.same _
    | some t => exact .ok ⟨rfl, ι, M.fireToken (M.own_of ht)⟩
  | unload of name => exact M.step_unload (hfirst rfl) (hsecond rfl)
  | drop of =>
    simp only [Session.step]
    rcases M.handle?_cases (hfirst rfl) with ⟨hs, hu⟩ | ⟨h, hs, hu, -⟩
    · rw [hs, hu]
      exact M.same _
    · rw [hs, hu]
      exact .ok ⟨rfl, ι, M.drop (hfirst rfl)⟩
  | describe of =>
    simp only [Session.step]
    rcases M.handle?_cases (hfirst rfl) with ⟨hs, hu⟩ | ⟨h, hs, hu, hi⟩
    · rw [hs, hu]
      exact M.same _
    · rw [hs, hu, Option.bind_some, Option.bind_some, M.describe hi]
      split <;> exact M.same _
  | clone of name => exact M.step_clone (hfirst rfl) (hsecond rfl)
  | resolve of name contract => exact M.step_resolve (hfirst rfl) (hsecond rfl) contract
  | observe of name => exact M.step_observe (hfirst rfl) (hsecond rfl)
  | compiled of name => exact M.step_compiled (hfirst rfl) (hsecond rfl)
  | ids of => exact M.step_ids (hfirst rfl)

/-! ## Steps that others take -/

theorem not_own_of_bind (M : s.Mirrors mine own ι u) {token : Option String}
    (ht : ∀ name ∈ token, mine name = false) {called : Token} (hc : token.bind s.token? = some called) :
    ¬ own called := by
  obtain ⟨name, hn, hs⟩ := Option.bind_eq_some_iff.mp hc
  exact M.not_own_of (ht name hn) hs

theorem load_other (M : s.Mirrors mine own ι u) {name : String} (hm : mine name = false)
    (hmodule : mine (moduleName name) = false) {settings : LoadSettings} {request : LoadRequest}
    (h : s.load name settings request = .ok (t, a)) : t.Mirrors mine own ι u := by
  unfold Session.load at h
  split at h
  · cases h
    exact M.recordLoad_other hm none
  · split at h
    · cases h
    · cases h
      exact M.recordLoad_other hm none
    · next outcome _ =>
      cases h
      exact M.place_other hm hmodule outcome.boundary

theorem instantiate_other (M : s.Mirrors mine own ι u) {of name : String} (hof : mine of = false)
    (hm : mine name = false) (h : s.instantiate of name = .ok (t, a)) : t.Mirrors mine own ι u := by
  unfold Session.instantiate at h
  split at h
  · next b entry hh =>
    have ho := M.outside_of hof hh
    split at h
    · cases h
      exact M
    · split at h
      · cases h
      · cases h
        exact M.update_other (ho.ne rfl) _
      · next boundary' store _ =>
        cases h
        have hrunning : (Handle.running b entry store).Outside own ι u.boundaries.length
            s.boundaries.length := ho.of_boundary? rfl rfl
        exact (M.update_other (ho.ne rfl) fun _ => boundary').add_other hm (by simpa using hrunning)
  · cases h
    exact M

theorem execute_other (M : s.Mirrors mine own ι u) {of argument : String} {token : Option String}
    {cancelAfter : Option Nat} (hof : mine of = false) (ht : ∀ name ∈ token, mine name = false)
    (h : s.execute of argument token cancelAfter = .ok (t, a)) : t.Mirrors mine own ι u := by
  unfold Session.execute at h
  split at h
  · next b entry store hh =>
    have ho := M.outside_of hof hh
    split at h
    · cases h
      exact M
    · dsimp only at h
      split at h
      · cases h
      · next e he =>
        cases h
        have hrunning : (Handle.running b entry e.store).Outside own ι u.boundaries.length
            s.boundaries.length := ho.of_boundary? rfl rfl
        have hreplaced := (M.update_other (ho.ne rfl) fun _ => e.boundary).replace_other hof
          (by simpa using hrunning)
        refine hreplaced.fired_other fun other hown => Boundary.execute_fires he fun n hn => ?_
        -- the alarm is that of a token which is none of ours
        dsimp only at hn
        split at hn
        · next called millis hc =>
          cases hn
          exact M.not_own_of_bind ht hc hown
        · cases hn
  · cases h
    exact M

theorem rung_other (M : s.Mirrors mine own ι u) {token : Option Token}
    (ht : ∀ t, token = some t → ¬ own t) (cancelAfter : Option Nat) (elapsed : Nat) :
    (s.rung token cancelAfter elapsed).Mirrors mine own ι u := by
  unfold Session.rung
  split
  · next called millis =>
    split
    · exact M.fireToken_other (ht called rfl)
    · exact M
  · exact M

theorem wait_other (M : s.Mirrors mine own ι u) {of : String} {monitor : Monitor}
    {released : Option (String × Nat)} {token : Option String} {cancelAfter : Option Nat}
    (hr : ∀ x ∈ released, mine x.1 = false) (ht : ∀ name ∈ token, mine name = false)
    (h : s.wait of monitor released token cancelAfter = .ok (t, a)) : t.Mirrors mine own ι u := by
  unfold Session.wait at h
  split at h
  · split at h
    · cases h
      exact M
    · cases h
      have hcalled : ∀ t, token.bind s.token? = some t → ¬ own t := fun _ => M.not_own_of_bind ht
      cases released with
      | none => exact M.rung_other hcalled cancelAfter _
      | some x => exact (M.drop_other (hr x rfl)).rung_other hcalled cancelAfter _
  · cases h
    exact M

/-- A step on what is not ours changes nothing for what is. -/
theorem step_other (M : s.Mirrors mine own ι u) {op : SessionStep}
    (hop : ∀ name ∈ op.names, mine name = false) (hnew : ∀ name, op = .token name → ¬ own ⟨s.nextToken⟩)
    (h : s.step op = .ok (t, a)) : t.Mirrors mine own ι u := by
  have hfirst : ∀ {name : String} {rest : List String}, op.names = name :: rest → mine name = false :=
    fun hn => hop _ (hn ▸ List.mem_cons_self)
  have hsecond : ∀ {name name' : String} {rest : List String}, op.names = name :: name' :: rest →
      mine name' = false := fun hn => hop _ (hn ▸ List.mem_cons_of_mem _ List.mem_cons_self)
  cases op with
  | load name settings request => exact M.load_other (hfirst rfl) (hsecond rfl) h
  | instantiate of name => exact M.instantiate_other (hfirst rfl) (hsecond rfl) h
  | execute of argument called cancelAfter =>
    refine M.execute_other (hfirst rfl) (fun name hn => hop name ?_) h
    exact List.mem_cons_of_mem _ (Option.mem_toList.mpr hn)
  | wait of monitor released called cancelAfter =>
    refine M.wait_other (fun x hx => hop x.1 ?_) (fun name hn => hop name ?_) h
    · refine List.mem_cons_of_mem _ (List.mem_append_left _ (Option.mem_toList.mpr ?_))
      exact Option.mem_map_of_mem _ hx
    · exact List.mem_cons_of_mem _ (List.mem_append_right _ (Option.mem_toList.mpr hn))
  | token name =>
    cases h
    have hnext : ({ s with nextToken := s.nextToken + 1 } : Session).Mirrors mine own ι u :=
      { M with tokens := Nat.le_succ_of_le M.tokens }
    exact hnext.add_other (hfirst rfl) (Handle.token_outside (hnew name rfl))
  | cancel of =>
    simp only [Session.step] at h
    split at h
    · next hs =>
      cases h
      exact M.fireToken_other (M.not_own_of (hfirst rfl) hs)
    · cases h
      exact M
  | unload of name =>
    simp only [Session.step] at h
    split at h
    · next b hh =>
      have ho := M.outside_of (hfirst rfl) hh
      have hobserver : (Handle.observer b).Outside own ι u.boundaries.length s.boundaries.length :=
        ho.of_boundary? rfl rfl
      have hadded := ((M.update_other (ho.ne rfl) Boundary.requestUnload).drop_other
        (hfirst rfl)).add_other (hsecond rfl) (by simpa using hobserver)
      split at h <;> (cases h; exact hadded)
    · cases h
      exact M
  | clone of name =>
    simp only [Session.step] at h
    split at h
    · next hh =>
      split at h <;> cases h
      · exact M.add_other (hsecond rfl) (M.outside_of (hfirst rfl) hh)
      · exact M
    · cases h
      exact M
  | drop of =>
    simp only [Session.step] at h
    split at h <;> cases h
    · exact M.drop_other (hfirst rfl)
    · exact M
  | resolve of name | observe of name | compiled of name =>
    simp only [Session.step] at h
    split at h
    · next hh =>
      have ho := M.outside_of (hfirst rfl) hh
      (repeat' split at h) <;> cases h <;> first
        | exact M
        | exact M.add_other (hsecond rfl) (ho.of_boundary? rfl rfl)
    · cases h
      exact M
  | ids | describe =>
    simp only [Session.step] at h
    (repeat' split at h) <;> (cases h; exact M)

end Mirrors

end Session

end ComponentHost
