import ComponentHost.Diagnostic
import ComponentHost.Proofs.Text.Blank
import ComponentHost.Proofs.Text.Pieces

/-! # Reading a rendered fault

A number is read back from its decimal digits, and a line and a column from behind the arrow of a rendering, when
the message before it is one line that has no arrow of its own. -/
set_option autoImplicit false

namespace ComponentHost.Diagnostic

open Text

variable {c : Char} {cs line message pad place rest : List Char} {n l : Nat}

/-! ## Numbers -/

theorem digit?_of_isDigit (h : c.isDigit = true) : digit? c = some (c.toNat - '0'.toNat) := by
  unfold digit?
  rw [Char.isDigit, Bool.and_eq_true, decide_eq_true_eq, decide_eq_true_eq] at h
  exact if_pos h

theorem le_ofDigitChars (cs : List Char) (n : Nat) : n ≤ Nat.ofDigitChars 10 cs n := by
  induction cs generalizing n with
  | nil => exact le_rfl
  | cons c cs ih =>
    rw [Nat.ofDigitChars_cons]
    have h := ih (10 * n + (c.toNat - '0'.toNat))
    omega

/-- Digits are read as the number that they spell, if that is small enough. -/
theorem readDigits_eq (hd : ∀ c ∈ cs, c.isDigit = true) (hn : Nat.ofDigitChars 10 cs n < UInt64.size) :
    readDigits n cs = some (Nat.ofDigitChars 10 cs n) := by
  induction cs generalizing n with
  | nil => rfl
  | cons c cs ih =>
    obtain ⟨hc, hcs⟩ := List.forall_mem_cons.mp hd
    rw [Nat.ofDigitChars_cons, Nat.mul_comm 10 n] at hn ⊢
    have hle := le_ofDigitChars cs (n * 10 + (c.toNat - '0'.toNat))
    rw [readDigits, digit?_of_isDigit hc]
    dsimp only
    rw [if_pos (by omega), ih hcs hn]

theorem isDigit_of_mem_toString (h : c ∈ (toString n).toList) : c.isDigit = true := by
  rw [Nat.toString_eq_ofList_toDigits, String.toList_ofList] at h
  exact Nat.isDigit_of_mem_toDigits (by decide) le_rfl h

theorem notMem_toString (hc : c.isDigit = false) : c ∉ (toString n).toList := by
  intro h
  rw [isDigit_of_mem_toString h] at hc
  cases hc

theorem readNumber_toString (hn : n < UInt64.size) : readNumber (toString n).toList = some n := by
  have hread : readDigits 0 (toString n).toList = some n := by
    have hd : ∀ c ∈ (toString n).toList, c.isDigit = true := fun c h => isDigit_of_mem_toString h
    rw [Nat.toString_eq_ofList_toDigits, String.toList_ofList] at hd ⊢
    rw [readDigits_eq hd (Nat.ofDigitChars_ten_toDigits.symm ▸ hn), Nat.ofDigitChars_ten_toDigits]
  have hplus : ∀ cs, (toString n).toList ≠ '+' :: cs :=
    fun cs h => notMem_toString (c := '+') rfl (h ▸ List.mem_cons_self)
  unfold readNumber
  split
  · next hnil =>
    rw [Nat.toString_eq_ofList_toDigits, String.toList_ofList] at hnil
    exact absurd hnil Nat.toDigits_ne_nil
  · next h => exact absurd h (hplus [])
  · next h => exact absurd h (hplus _)
  · exact hread

/-! ## The parts of a position -/

theorem splitLastColon_append (h : ':' ∉ cs) (before : List Char) :
    splitLastColon (before ++ ':' :: cs) = (some before, cs) := by
  have hne : ∀ c ∈ cs.reverse, decide (c ≠ ':') = true := by
    intro c hc
    rw [decide_eq_true_eq]
    rintro rfl
    exact h (List.mem_reverse.mp hc)
  unfold splitLastColon
  rw [List.reverse_append, List.reverse_cons, List.append_assoc, List.singleton_append,
    List.takeWhile_append_of_pos hne, List.dropWhile_append_of_pos hne, List.takeWhile_cons_of_neg (by decide),
    List.dropWhile_cons_of_neg (by decide)]
  simp

/-- A position as it stands behind an arrow. -/
def positionText (place : List Char) (line column : Nat) : List Char :=
  place ++ ':' :: ((toString line).toList ++ ':' :: (toString column).toList)

theorem isBlank_of_isDigit (h : c.isDigit = true) : isBlank c = false := by
  rw [Char.isDigit, Bool.and_eq_true, decide_eq_true_eq, decide_eq_true_eq, ge_iff_le, UInt32.le_iff_toNat_le,
    UInt32.le_iff_toNat_le] at h
  have hlow : 48 ≤ c.toNat := h.1
  have hhigh : c.toNat ≤ 57 := h.2
  unfold isBlank
  simp only [Bool.or_eq_false_iff, Bool.and_eq_false_iff, beq_eq_false_iff_ne, decide_eq_false_iff_not]
  omega

theorem exists_digit_last (place : List Char) (l n : Nat) :
    ∃ front c, c.isDigit = true ∧ positionText place l n = front ++ [c] := by
  have hne : (toString n).toList ≠ [] := by
    rw [Nat.toString_eq_ofList_toDigits, String.toList_ofList]
    exact Nat.toDigits_ne_nil
  obtain ⟨front, c, hc⟩ := (List.eq_nil_or_concat (toString n).toList).resolve_left hne
  rw [List.concat_eq_append] at hc
  refine ⟨place ++ ':' :: ((toString l).toList ++ ':' :: front), c, ?_, ?_⟩
  · refine isDigit_of_mem_toString (n := n) ?_
    rw [hc]
    exact List.mem_append_right front (List.mem_singleton_self c)
  · rw [positionText, hc]
    simp

/-- To trim a position is to trim the place at its start. -/
theorem trimEnd_trimStart_positionText (place : List Char) (l n : Nat) :
    trimEnd (trimStart (positionText place l n)) = positionText (trimStart place) l n := by
  have hstart : trimStart (positionText place l n) = positionText (trimStart place) l n := by
    unfold positionText trimStart
    rw [List.dropWhile_append]
    split
    · next hnil =>
      rw [List.isEmpty_iff.mp hnil]
      exact trimStart_cons rfl _
    · rfl
  obtain ⟨front, c, hc, hlast⟩ := exists_digit_last (trimStart place) l n
  rw [hstart, hlast, trimEnd_concat (isBlank_of_isDigit hc)]

theorem splitLastColon_positionText (place : List Char) (l n : Nat) :
    splitLastColon (positionText place l n) =
      (some (place ++ ':' :: (toString l).toList), (toString n).toList) := by
  have hassoc : positionText place l n = (place ++ ':' :: (toString l).toList) ++ ':' :: (toString n).toList := by
    rw [positionText, List.append_assoc, List.cons_append]
  rw [hassoc, splitLastColon_append (notMem_toString rfl)]

/-! ## Lines with and without arrows -/

/-- A line that starts with an arrow, blanks apart. -/
def IsArrow (line : List Char) : Prop := ['-', '-', '>'] <+: trimStart line

theorem IsArrow.of_isPrefix {xs ys : List Char} (h : IsArrow xs) (hp : xs <+: ys) : IsArrow ys := by
  obtain ⟨zs, rfl⟩ := hp
  refine h.trans ?_
  unfold trimStart
  rw [List.dropWhile_append]
  split
  · next hnil =>
    rw [List.isEmpty_iff.mp hnil]
    exact List.nil_prefix
  · exact List.prefix_append _ zs

theorem not_isArrow_cons (hb : isBlank c = false) (hc : c ≠ '-') (cs : List Char) : ¬ IsArrow (c :: cs) := by
  rw [IsArrow, trimStart_cons hb, List.cons_prefix_cons]
  exact fun h => hc h.1.symm

/-- An arrow does not reach over a space. -/
theorem IsArrow.of_append_space {xs ys : List Char} (h : IsArrow (xs ++ ' ' :: ys)) : IsArrow xs ∨ IsArrow ys := by
  unfold IsArrow trimStart at *
  rw [List.dropWhile_append] at h
  split at h
  · exact .inr h
  · refine .inl ?_
    have hspace : xs.dropWhile isBlank ++ [' '] <+: xs.dropWhile isBlank ++ ' ' :: ys :=
      (List.prefix_append_right_inj _).mpr (List.prefix_append [' '] ys)
    have hmem : ' ' ∈ xs.dropWhile isBlank ++ [' '] := List.mem_append_right _ (List.mem_singleton_self ' ')
    rcases List.prefix_or_prefix_of_prefix h hspace with hp | hp
    · refine (List.prefix_concat_iff.mp hp).resolve_left fun he => ?_
      rw [← he] at hmem
      exact absurd hmem (by decide)
    · exact absurd (hp.subset hmem) (by decide)

theorem dropReturn_isPrefix (line : List Char) : dropReturn line <+: line := by
  unfold dropReturn
  split
  · exact List.dropLast_prefix line
  · exact List.prefix_rfl

theorem arrowLine?_cons_of_not (h : ¬ IsArrow line) (lines : List (List Char)) :
    arrowLine? (line :: lines) = arrowLine? lines := by
  rw [arrowLine?]
  split
  · next position hp =>
    refine absurd ?_ h
    rw [IsArrow, hp]
    exact List.prefix_append ['-', '-', '>'] position
  · rfl

theorem arrowLine?_cons (hpad : ∀ c ∈ pad, isBlank c = true) (place : List Char) (lines : List (List Char)) :
    arrowLine? ((pad ++ '-' :: '-' :: '>' :: place) :: lines) = some (trimEnd (trimStart place)) := by
  rw [arrowLine?, trimStart_append hpad, trimStart_cons rfl]
  rfl

/-! ## Reading back -/

theorem location_ofRendering (rendering : String) :
    (ofRendering rendering).location = locationIn? rendering.toList := rfl

theorem notMem_arrowText (hpad : '\n' ∉ pad) (hplace : '\n' ∉ place) :
    '\n' ∉ pad ++ '-' :: '-' :: '>' :: positionText place l n := by
  have hdigits : ∀ m : Nat, '\n' ∉ (toString m).toList := fun m => notMem_toString rfl
  simp only [positionText, List.mem_append, List.mem_cons, not_or]
  exact ⟨hpad, by decide, by decide, by decide, hplace, by decide, hdigits l, by decide, hdigits n⟩

/-- The line of a position ends in a digit, so nothing is dropped at its end. -/
theorem dropReturn_arrowText (pad place : List Char) (l n : Nat) :
    dropReturn (pad ++ '-' :: '-' :: '>' :: positionText place l n) =
      pad ++ '-' :: '-' :: '>' :: positionText place l n := by
  obtain ⟨front, c, hc, hlast⟩ := exists_digit_last place l n
  unfold dropReturn
  refine if_neg fun hcr => ?_
  rw [hlast, ← List.cons_append, ← List.cons_append, ← List.cons_append, ← List.append_assoc,
    List.getLast?_concat] at hcr
  cases hcr
  cases hc

/-- A position behind the first arrow is read, whatever place is named before it. -/
theorem locationIn?_of_arrowLine? {text : List Char} (h : arrowLine? (lines text) = some (positionText place l n))
    (hl : l < UInt64.size) (hn : n < UInt64.size) : locationIn? text = some ⟨l, n⟩ := by
  unfold locationIn?
  rw [h]
  dsimp only
  rw [splitLastColon_positionText]
  dsimp only
  rw [splitLastColon_append (notMem_toString rfl), readNumber_toString hl, readNumber_toString hn]

theorem not_isArrow_dropReturn (h : ¬ IsArrow message) : ¬ IsArrow (dropReturn message) :=
  fun ha => h (ha.of_isPrefix (dropReturn_isPrefix message))

/-- Line and column are read from behind the arrow on the line after the message. -/
theorem locationIn?_rendered (hm : '\n' ∉ message) (ha : ¬ IsArrow message)
    (hpad : ∀ c ∈ pad, isBlank c = true) (hpadLine : '\n' ∉ pad) (hplace : '\n' ∉ place) (hl : l < UInt64.size)
    (hn : n < UInt64.size) (rest : List Char) :
    locationIn? (message ++ '\n' :: (pad ++ '-' :: '-' :: '>' :: positionText place l n ++ '\n' :: rest)) =
      some ⟨l, n⟩ := by
  have hline : arrowLine? (lines (message ++ '\n' :: (pad ++ '-' :: '-' :: '>' :: positionText place l n ++
      '\n' :: rest))) = some (positionText (trimStart place) l n) := by
    rw [lines_append_cons hm, arrowLine?_cons_of_not (not_isArrow_dropReturn ha),
      lines_append_cons (notMem_arrowText hpadLine hplace), dropReturn_arrowText, arrowLine?_cons hpad,
      trimEnd_trimStart_positionText]
  exact locationIn?_of_arrowLine? hline hl hn

theorem arrowLine?_eq_none {lines : List (List Char)} (h : ∀ line ∈ lines, ¬ IsArrow line) :
    arrowLine? lines = none := by
  induction lines with
  | nil => rfl
  | cons line lines ih =>
    obtain ⟨hline, hlines⟩ := List.forall_mem_cons.mp h
    rw [arrowLine?_cons_of_not hline, ih hlines]

/-- A rendering without an arrow names no location. -/
theorem locationIn?_eq_none {text : List Char} (h : ∀ line ∈ lines text, ¬ IsArrow line) :
    locationIn? text = none := by
  unfold locationIn?
  rw [arrowLine?_eq_none h]

theorem lines_of_notMem (h : '\n' ∉ line) : lines line = if line = [] then [] else [line] := by
  unfold lines
  rw [pieces_of_not_mem h]
  by_cases hnil : line = [] <;> simp [hnil]

/-- A single line without an arrow names no location. -/
theorem locationIn?_of_notMem (h : '\n' ∉ line) (ha : ¬ IsArrow line) : locationIn? line = none := by
  refine locationIn?_eq_none fun line' hline' => ?_
  rw [lines_of_notMem h] at hline'
  split at hline'
  · cases hline'
  · rwa [List.mem_singleton.mp hline']

end ComponentHost.Diagnostic
