import ComponentHost.Text.Blank
import Mathlib.Data.List.Basic

/-! # Pieces and lines

The pieces of a text are what the list library calls its split at a separator. A line that is ended by a line
feed is read off the front of a text, without the carriage return that it may end in. -/
set_option autoImplicit false

namespace ComponentHost.Text

variable {sep : Char} {piece line : List Char}

theorem pieces_eq_splitOn (sep : Char) (cs : List Char) : pieces sep cs = cs.splitOn sep := by
  induction cs with
  | nil => rfl
  | cons c cs ih =>
    rw [pieces, ih, List.splitOn_cons_eq_if_modifyHead]
    cases hs : cs.splitOn sep with
    | nil => exact absurd hs (List.splitOn_ne_nil sep cs)
    | cons p ps => by_cases hc : c = sep <;> simp [hc]

theorem pieces_append_cons (sep : Char) (xs ys : List Char) :
    pieces sep (xs ++ sep :: ys) = pieces sep xs ++ pieces sep ys := by
  simp only [pieces_eq_splitOn, List.splitOn_append_cons_self]

theorem pieces_ne_nil (sep : Char) (cs : List Char) : pieces sep cs ≠ [] := by
  rw [pieces_eq_splitOn]
  exact List.splitOn_ne_nil sep cs

theorem pieces_of_not_mem {cs : List Char} (h : sep ∉ cs) : pieces sep cs = [cs] := by
  rw [pieces_eq_splitOn, List.splitOn_eq_singleton h]

theorem not_mem_of_mem_pieces {cs : List Char} (h : piece ∈ pieces sep cs) : sep ∉ piece := by
  induction cs generalizing piece with
  | nil =>
    cases List.mem_singleton.mp h
    exact List.not_mem_nil
  | cons c cs ih =>
    rw [pieces] at h
    split at h
    · next hp => exact absurd hp (pieces_ne_nil sep cs)
    · next p ps hp =>
      rw [hp] at ih
      by_cases hc : c = sep
      · rw [if_pos hc] at h
        rcases List.mem_cons.mp h with rfl | h
        · exact List.not_mem_nil
        · exact ih h
      · rw [if_neg hc] at h
        rcases List.mem_cons.mp h with rfl | h
        · rw [List.mem_cons, not_or]
          exact ⟨Ne.symm hc, ih List.mem_cons_self⟩
        · exact ih (List.mem_cons_of_mem p h)

/-! ## Lines -/

/-- What a line feed ends is the first line. -/
theorem lines_append_cons (h : '\n' ∉ line) (rest : List Char) :
    lines (line ++ '\n' :: rest) = dropReturn line :: lines rest := by
  obtain ⟨p, ps, hp⟩ := List.exists_cons_of_ne_nil (pieces_ne_nil '\n' rest)
  unfold lines
  rw [pieces_append_cons, pieces_of_not_mem h, hp, List.singleton_append]
  dsimp only
  rw [List.getLast?_cons_cons, List.dropLast_cons_cons, List.map_cons]
  split <;> rfl

end ComponentHost.Text
