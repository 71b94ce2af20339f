import ComponentHost.Proofs.Session.Beside

/-! # Boundaries apart from others

What a session answers to the steps on some of its handles is what it answers when nothing is done to the
others, as long as the numbers are the same that identities and tokens get. -/
set_option autoImplicit false

namespace ComponentHost

namespace Session

variable {mine : String → Bool} {own : Token → Prop} {ι : Nat → Nat} {s u t : Session} {a : SessionAnswer}

/-! ## Numbers -/

/-- The number of the next token grows, and a step that makes a token takes it. -/
theorem step_nextToken {op : SessionStep} (h : s.step op = .ok (t, a)) :
    s.nextToken ≤ t.nextToken ∧ ∀ name, op = .token name → s.nextToken < t.nextToken := by
  cases op with
  | token name =>
    cases h
    simp
  | load name settings request =>
    simp only [step, load] at h
    (repeat' split at h) <;> cases h <;> simp [recordLoad]
  | instantiate of name =>
    simp only [step, instantiate] at h
    (repeat' split at h) <;> cases h <;> simp [update]
  | execute of argument called cancelAfter =>
    simp only [step, execute] at h
    (repeat' split at h) <;> cases h <;> simp [update, replace]
  | wait of monitor released called cancelAfter =>
    simp only [step, wait] at h
    split at h
    · split at h <;> cases h
      · simp
      · cases released <;> dsimp only <;> (repeat' split) <;> simp
    · cases h
      simp
  | _ =>
    simp only [step] at h
    (repeat' split at h) <;> cases h <;> simp [update]

/-- A step, with the numbers for the identities and the token that it may make. -/
structure Numbered where
  id : Nat
  token : Nat
  op : SessionStep

/-- The session with the numbers for a step. -/
def draw (s : Session) (n : Numbered) : Session := { s with nextId := n.id, nextToken := n.token }

/-- The numbers for a step have not been taken yet. -/
structure Fresh (s : Session) (n : Numbered) : Prop where
  id : s.nextId ≤ n.id
  token : s.nextToken ≤ n.token

/-- A run whose steps take any numbers that are new, with the answers to them. -/
inductive Answers : Session → List Numbered → List SessionAnswer → Session → Prop where
  | nil (s : Session) : Answers s [] [] s
  | cons {s t u : Session} {n : Numbered} {steps : List Numbered} {a : SessionAnswer}
      {answers : List SessionAnswer} (hn : s.Fresh n)
      (hstep : (s.draw n).step n.op = .ok (t, a)) (hrest : Answers t steps answers u) :
      Answers s (n :: steps) (a :: answers) u

/-- The answers to the steps on one side. -/
def answersOn (side : String → Bool) (steps : List Numbered) (answers : List SessionAnswer) :
    List SessionAnswer :=
  ((steps.zip answers).filter (·.1.op.isOn side)).map Prod.snd

/-- Any run has numbers that it takes. -/
theorem answers_of_run {ops : List SessionStep} (h : s.run ops = .ok t) :
    ∃ steps answers, steps.map Numbered.op = ops ∧ s.Answers steps answers t := by
  induction ops generalizing s with
  | nil =>
    cases h
    exact ⟨[], [], rfl, .nil _⟩
  | cons op ops ih =>
    obtain ⟨next, a, hs, hr⟩ := run_cons_ok h
    obtain ⟨steps, answers, rfl, hrest⟩ := ih hr
    exact ⟨⟨_, _, op⟩ :: steps, a :: answers, rfl,
      .cons (n := ⟨_, _, op⟩) ⟨Nat.le_refl _, Nat.le_refl _⟩ hs hrest⟩

namespace Answers

variable {steps : List Numbered} {answers : List SessionAnswer}

theorem le_token (h : s.Answers steps answers t) : ∀ n ∈ steps, s.nextToken ≤ n.token := by
  induction h with
  | nil => exact nofun
  | cons hf hstep _ ih =>
    have hle := Nat.le_trans hf.token (step_nextToken hstep).1
    exact List.forall_mem_cons.mpr ⟨hf.token, fun n hn => Nat.le_trans hle (ih n hn)⟩

theorem nextToken_le (h : s.Answers steps answers t) : s.nextToken ≤ t.nextToken := by
  induction h with
  | nil => exact Nat.le_refl _
  | cons hf hstep _ ih => exact Nat.le_trans (Nat.le_trans hf.token (step_nextToken hstep).1) ih

/-- A run ends behind the numbers of the tokens that it makes. -/
theorem token_lt (h : s.Answers steps answers t) {n : Numbered} {name : String} (hn : n ∈ steps)
    (ho : n.op = .token name) : n.token < t.nextToken := by
  induction h with
  | nil => cases hn
  | cons hf hstep hrest ih =>
    rcases List.mem_cons.mp hn with rfl | hn
    · exact Nat.lt_of_lt_of_le ((step_nextToken hstep).2 name ho) hrest.nextToken_le
    · exact ih hn

/-- No two tokens are made with the same number. -/
theorem token_inj (h : s.Answers steps answers t) {n n' : Numbered} {name name' : String}
    (hn : n ∈ steps) (hn' : n' ∈ steps) (ho : n.op = .token name) (ho' : n'.op = .token name')
    (he : n.token = n'.token) : name = name' := by
  induction h with
  | nil => cases hn
  | @cons _ _ _ first _ _ _ hf hstep hrest ih =>
    -- whatever number the first step takes, those behind it take larger ones
    have hlater : ∀ {made : String} {n : Numbered}, first.op = .token made → n ∈ _ → first.token ≠ n.token :=
      fun hm hn => Nat.ne_of_lt (Nat.lt_of_lt_of_le ((step_nextToken hstep).2 _ hm) (hrest.le_token _ hn))
    rcases List.mem_cons.mp hn with rfl | hm <;> rcases List.mem_cons.mp hn' with rfl | hm'
    · exact SessionStep.token.inj (ho.symm.trans ho')
    · exact absurd he (hlater ho hm')
    · exact absurd he.symm (hlater ho' hm)
    · exact ih hm hm'

end Answers

/-! ## Leaving others out -/

namespace Mirrors

theorem draw (M : s.Mirrors mine own ι u) (n : Numbered) :
    (s.draw n).Mirrors mine own ι (u.draw n) :=
  { M with ids := Nat.le_refl _, tokens := Nat.le_refl _ }

theorem draw_other (M : s.Mirrors mine own ι u) {n : Numbered} (hf : s.Fresh n) :
    (s.draw n).Mirrors mine own ι u :=
  { M with ids := Nat.le_trans M.ids hf.id, tokens := Nat.le_trans M.tokens hf.token }

/-- A run goes on in the same way without the steps of others. -/
theorem answers {steps : List Numbered} {answers : List SessionAnswer} (M : s.Mirrors mine own ι u)
    (hsides : ∀ n ∈ steps, n.op.isOn mine = true ∨ n.op.isOn (!mine ·) = true)
    (hown : ∀ n ∈ steps, ∀ name, n.op = .token name → (own ⟨n.token⟩ ↔ mine name = true))
    (h : s.Answers steps answers t) :
    ∃ ι v, u.Answers (steps.filter (·.op.isOn mine)) (answersOn mine steps answers) v ∧
      t.Mirrors mine own ι v := by
  induction h generalizing ι u with
  | nil s => exact ⟨ι, u, .nil u, M⟩
  | @cons s next t n steps a answers hf hstep _ ih =>
    obtain ⟨hside, hsides⟩ := List.forall_mem_cons.mp hsides
    obtain ⟨hnew, hown⟩ := List.forall_mem_cons.mp hown
    rcases hside with hmine | hother
    · have hnames := SessionStep.isOn_iff.mp hmine
      have hboth := (M.draw n).step rfl rfl hnames fun name ho =>
        (hnew name ho).mpr (hnames name (by rw [ho]; exact List.mem_cons_self))
      rw [hstep] at hboth
      generalize hu : (u.draw n).step n.op = taken at hboth
      cases hboth with
      | @ok _ y hy =>
        obtain ⟨v, b⟩ := y
        obtain ⟨rfl, ι', M'⟩ := hy
        obtain ⟨ι'', w, hw, M''⟩ := ih M' hsides hown
        refine ⟨ι'', w, ?_, M''⟩
        rw [answersOn, List.zip_cons_cons, List.filter_cons_of_pos (by exact hmine),
          List.filter_cons_of_pos (by exact hmine), List.map_cons]
        exact .cons ⟨Nat.le_trans M.ids hf.id, Nat.le_trans M.tokens hf.token⟩ hu hw
    · have hskip := SessionStep.isOn_eq_false hother
      have M' := (M.draw_other hf).step_other (SessionStep.isOn_other_iff.mp hother)
        (fun name ho hown => by
          have hm := SessionStep.isOn_other_iff.mp hother name (by rw [ho]; exact List.mem_cons_self)
          rw [(hnew name ho).mp hown] at hm
          exact Bool.noConfusion hm) hstep
      obtain ⟨ι', w, hw, M''⟩ := ih M' hsides hown
      refine ⟨ι', w, ?_, M''⟩
      rw [answersOn, List.zip_cons_cons, List.filter_cons_of_neg (by simp [hskip]),
        List.filter_cons_of_neg (by simp [hskip])]
      exact hw

end Mirrors

/-- Where the names of handles have two sides, and no step is about names of both, the steps on one side get
the answers that they get when those on the other are left out, if they take the same numbers. All that can
be seen on the one side is the same then, and will be whatever step is next. -/
theorem boundaries_apart {fs : FileSystem} {fuel : Nat} {steps : List Numbered}
    {answers : List SessionAnswer}
    (hsides : ∀ n ∈ steps, n.op.isOn mine = true ∨ n.op.isOn (!mine ·) = true)
    (h : (start fs fuel).Answers steps answers s) :
    ∃ u, (start fs fuel).Answers (steps.filter (·.op.isOn mine)) (answersOn mine steps answers) u ∧
      s.liveness.filter (mine ·.1) = u.liveness ∧
      s.lifecycles.filter (mine ·.1) = u.lifecycles ∧
      s.callbacks.filter (mine ·.1) = u.callbacks ∧
      ∀ n : Numbered, n.op.isOn mine = true → s.Fresh n →
        ((s.draw n).step n.op).map Prod.snd = ((u.draw n).step n.op).map Prod.snd := by
  -- our tokens are all that are not made on the other side
  let own (token : Token) : Prop :=
    ∀ n ∈ steps, ∀ name, n.op = .token name → n.token = token.id → mine name = true
  have hown : ∀ n ∈ steps, ∀ name, n.op = .token name → (own ⟨n.token⟩ ↔ mine name = true) := by
    intro n hn name ho
    refine ⟨fun ht => ht n hn name ho rfl, fun hm n' hn' name' ho' he => ?_⟩
    rwa [h.token_inj hn' hn ho' ho he]
  obtain ⟨ι, u, hu, M⟩ := (start_mirrors mine own fs fuel).answers hsides hown h
  refine ⟨u, hu, M.liveness, M.lifecycles, M.callbacks, fun n hmine hf => ?_⟩
  have hboth := (M.draw n).step rfl rfl (SessionStep.isOn_iff.mp hmine)
    fun _ _ n' hn' name ho he => absurd (h.token_lt hn' ho) (Nat.not_lt_of_le (he ▸ hf.token))
  generalize (s.draw n).step n.op = left at hboth ⊢
  generalize (u.draw n).step n.op = right at hboth ⊢
  cases hboth with
  | error stall => rfl
  | ok hy => exact congrArg Except.ok hy.1

/-! ## Two loads of one script -/

theorem unseen_by_another :
    let load := fun name => SessionStep.load name (.level .debug) ⟨⟨"/base"⟩, "(component)", []⟩
    let ops := [load "a", load "b", .observe "a" "seen", .token "stop", .unload "b" "gone", .cancel "stop"]
    let mine := fun name => ["a", "a.module", "seen"].contains name
    ∃ (steps : List Numbered) (answers : List SessionAnswer) (s u : Session),
      (start bareFiles 1000).run ops = .ok s ∧ steps.map Numbered.op = ops ∧
      (steps.filter (·.op.isOn mine)).map Numbered.op = [load "a", .observe "a" "seen"] ∧
      (start bareFiles 1000).Answers (steps.filter (·.op.isOn mine)) answers u ∧
      u.liveness = [("seen", true)] ∧ u.callbacks = [("a", 0)] := by
  intro load ops mine
  have hs : ∃ s, (start bareFiles 1000).run ops = .ok s ∧
      s.liveness.filter (mine ·.1) = [("seen", true)] ∧ s.callbacks.filter (mine ·.1) = [("a", 0)] :=
    ⟨_, rfl, rfl, rfl⟩
  obtain ⟨s, hs, hlive, hcalls⟩ := hs
  obtain ⟨steps, answers, hops, h⟩ := answers_of_run hs
  have hall : ops.all (fun op => op.isOn mine || op.isOn (!mine ·)) = true := rfl
  have hsides : ∀ n ∈ steps, n.op.isOn mine = true ∨ n.op.isOn (!mine ·) = true := by
    intro n hn
    have hm : n.op ∈ ops := hops ▸ List.mem_map_of_mem hn
    exact (Bool.or_eq_true _ _).mp (List.all_eq_true.mp hall n.op hm)
  obtain ⟨u, hu, hl, -, hc, -⟩ := boundaries_apart hsides h
  have hfilter : (steps.map Numbered.op).filter (·.isOn mine) =
      (steps.filter (·.op.isOn mine)).map Numbered.op := List.filter_map
  refine ⟨steps, _, s, u, hs, hops, ?_, hu, hl.symm.trans hlive, hc.symm.trans hcalls⟩
  rw [← hfilter, hops]
  rfl

end Session

end ComponentHost
