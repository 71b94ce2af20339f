import ComponentHost.Proofs.Diagnostic.Rendering
import ComponentHost.Wat.Report
import Mathlib.Data.List.DropRight

/-! # Places in a text

The place of a character is counted from the text before it: the line ends there are, and the width of what comes
behind the last of them. So the place moves down by the lines that are put before a text, and to the right when what
is put before it ends in the same line. The position that is rendered with a fault is such a place. -/
set_option autoImplicit false

namespace ComponentHost

namespace Text

variable {xs ys cs : List Char} {c : Char}

/-- What comes behind the last line end. -/
def lastLine (cs : List Char) : List Char := cs.rtakeWhile fun c => decide (c ≠ '\n')

theorem lastLine_of_notMem (h : '\n' ∉ cs) : lastLine cs = cs := by
  unfold lastLine
  rw [List.rtakeWhile_eq_self_iff]
  intro c hc
  rw [decide_eq_true_eq]
  rintro rfl
  exact h hc

theorem lastLine_append (xs ys : List Char) :
    lastLine (xs ++ ys) = if '\n' ∈ ys then lastLine ys else lastLine xs ++ ys := by
  induction ys using List.reverseRecOn with
  | nil => simp
  | append_singleton ys c ih =>
    unfold lastLine at ih ⊢
    rw [← List.append_assoc, List.rtakeWhile_concat, List.rtakeWhile_concat, ih]
    by_cases hc : c = '\n'
    · simp [hc]
    · by_cases hy : '\n' ∈ ys <;> simp [hc, Ne.symm hc, hy]

theorem width_append (xs ys : List Char) : width (xs ++ ys) = width xs + width ys := by
  have hfrom : ∀ (cs : List Char) (n : Nat), cs.foldl (fun n c => n + columns c) n = n + width cs := by
    intro cs
    induction cs with
    | nil => exact fun n => rfl
    | cons c cs ih =>
      intro n
      unfold width
      rw [List.foldl_cons, List.foldl_cons, ih, ih (0 + columns c)]
      omega
  unfold width
  rw [List.foldl_append, hfrom ys]
  rfl

theorem columns_pos_of_isBlank (h : isBlank c = true) : 0 < columns c := by
  have hvisible : inRanges invisibleRanges c = false := by
    unfold isBlank at h
    simp only [Bool.or_eq_true, Bool.and_eq_true, beq_iff_eq, decide_eq_true_eq] at h
    simp only [inRanges, invisibleRanges, List.any_cons, List.any_nil, Bool.or_eq_false_iff, Bool.and_eq_false_iff,
      decide_eq_false_iff_not, and_true]
    omega
  unfold columns
  rw [hvisible]
  split
  · exact Nat.one_pos
  · split <;> decide

theorem width_pos_of_isBlank (h : ∀ c ∈ cs, isBlank c = true) (hne : cs ≠ []) : 0 < width cs := by
  obtain ⟨c, rest, rfl⟩ := List.exists_cons_of_ne_nil hne
  have hc := columns_pos_of_isBlank (h c List.mem_cons_self)
  have hwidth := width_append [c] rest
  have hone : width [c] = columns c := Nat.zero_add _
  rw [List.singleton_append, hone] at hwidth
  omega

end Text

namespace Wat

open Text

/-- The place of the character that stands behind a text. -/
def placeAfter (before : List Char) : Location := ⟨before.count '\n' + 1, width (lastLine before) + 1⟩

/-- The text before an offset in bytes. -/
def upTo : Nat → List Char → List Char
  | _, [] => []
  | offset, c :: rest => if offset = 0 then [] else c :: upTo (offset - c.utf8Size) rest

theorem upTo_isPrefix (offset : Nat) (cs : List Char) : upTo offset cs <+: cs := by
  induction cs generalizing offset with
  | nil => exact List.prefix_rfl
  | cons c cs ih =>
    rw [upTo]
    split
    · exact List.nil_prefix
    · exact List.cons_prefix_cons.mpr ⟨rfl, ih _⟩

theorem lineBefore_eq {acc : List Char} (hacc : '\n' ∉ acc) (offset count : Nat) (cs : List Char) :
    lineBefore offset count acc cs =
      (lastLine (acc.reverse ++ upTo offset cs), count + (upTo offset cs).count '\n') := by
  -- the text that has been read since the last line end is held back to front
  induction cs generalizing offset count acc with
  | nil =>
    rw [upTo, List.append_nil, lastLine_of_notMem (fun h => hacc (List.mem_reverse.mp h))]
    rfl
  | cons c cs ih =>
    rw [lineBefore, upTo]
    split
    · rw [List.append_nil, lastLine_of_notMem (fun h => hacc (List.mem_reverse.mp h))]
      rfl
    · split
      · next hc =>
        subst hc
        have hsize : ('\n').utf8Size = 1 := rfl
        have hline : lastLine ('\n' :: upTo (offset - 1) cs) = lastLine (upTo (offset - 1) cs) := by
          rw [← List.singleton_append, lastLine_append]
          split
          · rfl
          · next hn => exact (lastLine_of_notMem hn).symm
        have hbehind : lastLine (acc.reverse ++ '\n' :: upTo (offset - 1) cs) = lastLine (upTo (offset - 1) cs) := by
          rw [lastLine_append, if_pos List.mem_cons_self, hline]
        rw [ih List.not_mem_nil, hsize, hbehind, List.count_cons_self, List.reverse_nil, List.nil_append,
          Nat.add_assoc, Nat.add_comm 1]
      · next hc =>
        have hacc' : '\n' ∉ c :: acc := by
          rw [List.mem_cons, not_or]
          exact ⟨fun h => hc h.symm, hacc⟩
        rw [ih hacc', List.reverse_cons, List.append_assoc, List.singleton_append, List.count_cons_of_ne hc]

theorem position_eq (text : List Char) (offset : Nat) :
    position text offset = ((placeAfter (upTo offset text)).line, (placeAfter (upTo offset text)).column) := by
  unfold position
  rw [lineBefore_eq List.not_mem_nil, Nat.zero_add]
  rfl

/-! ## Text that is put before -/

/-- A character moves down by the lines before it, and right by what is before it in its own line. -/
theorem placeAfter_append (w before : List Char) :
    placeAfter (w ++ before) = ⟨(placeAfter before).line + w.count '\n',
      (if '\n' ∈ before then 0 else width (lastLine w)) + (placeAfter before).column⟩ := by
  unfold placeAfter
  rw [List.count_append, lastLine_append]
  split
  · simp only [Location.mk.injEq]
    omega
  · next hn =>
    rw [width_append, lastLine_of_notMem hn]
    simp only [Location.mk.injEq]
    omega

/-- Blanks before a text leave a place as it is only when they hold no line end and another line comes before the
place, or when there are none. -/
theorem placeAfter_append_eq_iff {w : List Char} (hw : ∀ c ∈ w, isBlank c = true) (before : List Char) :
    placeAfter (w ++ before) = placeAfter before ↔ '\n' ∉ w ∧ (w = [] ∨ '\n' ∈ before) := by
  rw [placeAfter_append]
  by_cases hline : '\n' ∈ w
  · have hcount := List.count_pos_iff.mpr hline
    refine iff_of_false (fun h => ?_) fun h => h.1 hline
    have hlines := congrArg Location.line h
    dsimp only at hlines
    omega
  · rw [List.count_eq_zero_of_not_mem hline, lastLine_of_notMem hline]
    by_cases hbefore : '\n' ∈ before
    · simp [hline, hbefore]
    · by_cases hnil : w = []
      · subst hnil
        simp [hbefore, width]
      · have hpos := width_pos_of_isBlank hw hnil
        refine iff_of_false (fun h => ?_) fun h => h.2.elim hnil hbefore
        have hcolumns := congrArg Location.column h
        dsimp only at hcolumns
        rw [if_neg hbefore] at hcolumns
        omega

end Wat

end ComponentHost
