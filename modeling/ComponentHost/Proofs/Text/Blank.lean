import ComponentHost.Text.Blank
import Mathlib.Data.List.TakeWhile

/-! # Blank texts

Trimming takes blanks from the ends of a text, so it leaves nothing of a text that is all blank, and something
of every other. -/
set_option autoImplicit false

namespace ComponentHost.Text

theorem trimEnd_eq_nil_iff {cs : List Char} : trimEnd cs = [] ↔ ∀ c ∈ cs, isBlank c = true := by
  unfold trimEnd
  rw [List.reverse_eq_nil_iff, List.dropWhile_eq_nil_iff]
  exact forall_congr' fun c => by rw [List.mem_reverse]

theorem trimStart_eq_nil_iff {cs : List Char} : trimStart cs = [] ↔ ∀ c ∈ cs, isBlank c = true := by
  unfold trimStart
  rw [List.dropWhile_eq_nil_iff]

/-- Trimming leaves nothing of a text just when all of it is blank. -/
theorem trim_isEmpty_iff {s : String} : (trim s).isEmpty = true ↔ ∀ c ∈ s.toList, isBlank c = true := by
  have hempty : (trim s).isEmpty = true ↔ trimEnd (trimStart s.toList) = [] := by
    unfold trim
    simp
  rw [hempty, trimEnd_eq_nil_iff]
  constructor
  · intro h
    rw [← trimStart_eq_nil_iff]
    by_contra hne
    -- what is left begins with a character that is not blank
    obtain ⟨c, cs, hc⟩ := List.exists_cons_of_ne_nil hne
    have hblank := h c (hc ▸ List.mem_cons_self)
    have hhead : isBlank c = false := by
      have hfirst := List.head?_dropWhile_not isBlank s.toList
      rw [← trimStart, hc] at hfirst
      simpa using hfirst
    rw [hhead] at hblank
    cases hblank
  · intro h
    rw [trimStart_eq_nil_iff.mpr h]
    exact nofun

theorem trim_not_isEmpty {s : String} (h : ∃ c ∈ s.toList, isBlank c = false) : ¬ (trim s).isEmpty = true := by
  rw [trim_isEmpty_iff]
  obtain ⟨c, hc, hb⟩ := h
  intro hall
  rw [hall c hc] at hb
  cases hb

/-! ## What trimming leaves -/

variable {cs blanks : List Char} {c : Char}

theorem trimStart_append (h : ∀ c ∈ blanks, isBlank c = true) (cs : List Char) :
    trimStart (blanks ++ cs) = trimStart cs :=
  List.dropWhile_append_of_pos h

theorem trimStart_cons (h : isBlank c = false) (cs : List Char) : trimStart (c :: cs) = c :: cs := by
  rw [trimStart, List.dropWhile_cons_of_neg (Bool.eq_false_iff.mp h)]

/-- A text that does not begin with a blank is left at its start. -/
theorem trimStart_of_head? (h : ∀ c, cs.head? = some c → isBlank c = false) : trimStart cs = cs := by
  cases cs with
  | nil => rfl
  | cons c cs => exact trimStart_cons (h c rfl) cs

theorem trimEnd_concat (h : isBlank c = false) (cs : List Char) : trimEnd (cs ++ [c]) = cs ++ [c] := by
  rw [trimEnd, List.reverse_append, List.reverse_singleton, List.singleton_append,
    List.dropWhile_cons_of_neg (Bool.eq_false_iff.mp h), List.reverse_cons, List.reverse_reverse]

theorem trimEnd_isPrefix (cs : List Char) : trimEnd cs <+: cs := by
  rw [← List.reverse_suffix, trimEnd, List.reverse_reverse]
  exact List.dropWhile_suffix _

/-- Of a text that does not begin with a blank, only the end is trimmed. -/
theorem trim_isPrefix {s : String} (h : ∃ c, s.toList.head? = some c ∧ isBlank c = false) :
    (trim s).toList <+: s.toList := by
  obtain ⟨c, hc, hb⟩ := h
  have hstart : trimStart s.toList = s.toList := by
    refine trimStart_of_head? fun c' hc' => ?_
    cases hc.symm.trans hc'
    exact hb
  rw [trim, String.toList_ofList, hstart]
  exact trimEnd_isPrefix s.toList

theorem trim_append {w : String} (h : ∀ c ∈ w.toList, isBlank c = true) (s : String) : trim (w ++ s) = trim s := by
  rw [trim, String.toList_append, trimStart_append h, ← trim]

end ComponentHost.Text
