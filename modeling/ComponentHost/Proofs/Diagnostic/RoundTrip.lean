import ComponentHost.Proofs.Diagnostic.Rendering

/-! # Reading back what was rendered

A rendering is written as its message, the line of its position and the lines of a snippet. Reading inverts the
writing, whatever file is named and whatever the snippet looks like, because the arrow behind the message is the first
one; and a rendering without an arrow is read as its message alone. -/
set_option autoImplicit false

namespace ComponentHost.Diagnostic

open Text

variable {line : List Char} {message file : String}

/-! ## Messages -/

/-- Trimming the end of a line does not take an arrow from its start. -/
theorem isArrow_iff_trim : IsArrow line ↔ ['-', '-', '>'] <+: trimEnd (trimStart line) := by
  unfold IsArrow
  constructor
  · rintro ⟨rest, hrest⟩
    have hends : trimEnd ('-' :: '-' :: '>' :: rest) = '-' :: '-' :: '>' :: trimEnd rest := by
      unfold trimEnd
      rw [List.reverse_cons, List.reverse_cons, List.reverse_cons, List.append_assoc, List.append_assoc,
        List.dropWhile_append]
      split
      · next hnil =>
        rw [List.isEmpty_iff.mp hnil]
        rfl
      · rw [List.reverse_append]
        rfl
    rw [← hrest, List.cons_append, List.cons_append, List.cons_append, List.nil_append, hends]
    exact List.prefix_append ['-', '-', '>'] _
  · exact fun h => h.trans (trimEnd_isPrefix _)

/-- A carriage return at the end of a line is trimmed with the blanks. -/
theorem trim_dropReturn (line : List Char) : trim (String.ofList (dropReturn line)) = trim (String.ofList line) := by
  unfold dropReturn
  split
  · next hlast =>
    obtain ⟨front, rfl⟩ := List.getLast?_eq_some_iff.mp hlast
    have hblank : ∀ front, trimEnd (front ++ ['\r']) = trimEnd front := by
      intro front
      rw [trimEnd, List.reverse_append, List.reverse_singleton, List.singleton_append,
        List.dropWhile_cons_of_pos (by decide), ← trimEnd]
    rw [List.dropLast_concat]
    simp only [trim, String.toList_ofList]
    by_cases h : trimStart front = []
    · -- the line is blank
      have hall : trimStart (front ++ ['\r']) = trimStart ['\r'] := trimStart_append (trimStart_eq_nil_iff.mp h) _
      rw [h, hall]
      rfl
    · have hsplit : trimStart (front ++ ['\r']) = trimStart front ++ ['\r'] := by
        unfold trimStart at h ⊢
        rw [List.dropWhile_append, if_neg (by simpa using h)]
      rw [hsplit, hblank]
  · rfl

/-- Without an arrow there is nothing but a message, which is what the first line says. -/
theorem ofRendering_of_forall_not {rendering : String} (h : ∀ line ∈ lines rendering.toList, ¬ IsArrow line) :
    ofRendering rendering =
      error (((lines rendering.toList).head?.map fun line => trim (String.ofList line)).getD "malformed source") := by
  unfold ofRendering error
  rw [locationIn?_eq_none h]
  cases lines rendering.toList <;> rfl

/-! ## Writing -/

/-- The lines of a text in one text. -/
def unlines (lines : List String) : String := "\n".intercalate lines

def spaces (n : Nat) : String := String.ofList (List.replicate n ' ')

/-- The line that points at a position. -/
def pointer (indent : Nat) (file : String) (location : Location) : String :=
  spaces indent ++ "--> " ++ file ++ ":" ++ toString location.line ++ ":" ++ toString location.column

theorem toList_pointer (indent : Nat) (file : String) (location : Location) :
    (pointer indent file location).toList =
      List.replicate indent ' ' ++ '-' :: '-' :: '>' ::
        positionText (' ' :: file.toList) location.line location.column := by
  simp only [pointer, spaces, positionText, String.toList_append, String.toList_ofList, List.append_assoc]
  rfl

theorem toList_unlines_cons_cons (first second : String) (rest : List String) :
    (unlines (first :: second :: rest)).toList = first.toList ++ '\n' :: (unlines (second :: rest)).toList := by
  rw [unlines, String.intercalate_cons_cons, String.toList_append, String.toList_append, List.append_assoc]
  rfl

/-- The first line of a text that is not empty; a carriage return that a line feed follows is not part of it. -/
theorem exists_lines_unlines {first : String} {rest : List String} (hfirst : '\n' ∉ first.toList)
    (hne : unlines (first :: rest) ≠ "") :
    ∃ line more, lines (unlines (first :: rest)).toList = line :: more ∧
      (line = first.toList ∨ line = dropReturn first.toList) := by
  cases rest with
  | nil =>
    rw [unlines, String.intercalate_singleton] at hne ⊢
    refine ⟨first.toList, [], ?_, .inl rfl⟩
    rw [lines_of_notMem hfirst, if_neg fun h => hne (String.toList_eq_nil_iff.mp h)]
  | cons second rest =>
    rw [toList_unlines_cons_cons, lines_append_cons hfirst]
    exact ⟨_, _, rfl, .inr rfl⟩

theorem arrowLine?_unlines_pointer (hfile : '\n' ∉ file.toList) (indent : Nat) (location : Location)
    (snippet : List String) :
    arrowLine? (lines (unlines (pointer indent file location :: snippet)).toList) =
      some (positionText (trimStart file.toList) location.line location.column) := by
  have hpointer := toList_pointer indent file location
  have hspace : ∀ c ∈ List.replicate indent ' ', c = ' ' := fun c hc => List.eq_of_mem_replicate hc
  have hline : '\n' ∉ (pointer indent file location).toList := by
    rw [hpointer]
    refine notMem_arrowText (fun h => absurd (hspace _ h) (by decide)) ?_
    exact List.not_mem_cons_of_ne_of_not_mem (by decide) hfile
  have hne : unlines (pointer indent file location :: snippet) ≠ "" := by
    intro h
    have hmem : '>' ∈ (unlines (pointer indent file location :: snippet)).toList := by
      cases snippet with
      | nil =>
        rw [unlines, String.intercalate_singleton, hpointer]
        simp
      | cons second snippet =>
        rw [toList_unlines_cons_cons, hpointer]
        simp
    rw [h] at hmem
    cases hmem
  obtain ⟨line, more, hlines, hfirst⟩ := exists_lines_unlines hline hne
  have hfirst : line = (pointer indent file location).toList := by
    refine hfirst.elim id fun h => ?_
    rw [h, hpointer, dropReturn_arrowText]
  rw [hlines, hfirst, hpointer, arrowLine?_cons (fun c hc => (hspace c hc).symm ▸ rfl),
    trimEnd_trimStart_positionText]
  rfl

/-- A diagnostic is read back from what was rendered. If a line with the position stands behind a message that is no
arrow itself, the message is read with that position, whatever file is named and whatever snippet follows; if no line
starts with an arrow, the message is read without a position. Only a rendering without any line has no message. -/
theorem ofRendering_rendering :
    (∀ (message : String) (indent : Nat) (file : String) (location : Location) (snippet : List String),
      '\n' ∉ message.toList → ¬ "-->".toList <+: (trim message).toList → '\n' ∉ file.toList →
      location.line < UInt64.size → location.column < UInt64.size →
      ofRendering (unlines (message :: pointer indent file location :: snippet)) =
        (error (trim message)).located location) ∧
    (∀ (message : String) (others : List String),
      '\n' ∉ message.toList → unlines (message :: others) ≠ "" →
      (∀ line ∈ lines (unlines (message :: others)).toList, ¬ "-->".toList <+: trimStart line) →
      ofRendering (unlines (message :: others)) = error (trim message)) ∧
    ofRendering "" = error "malformed source" := by
  refine ⟨?_, ?_, by decide⟩
  · intro message indent file location snippet hmessage harrow hfile hl hn
    have harrow : ¬ IsArrow message.toList := by
      have htrim : (trim message).toList = trimEnd (trimStart message.toList) := String.toList_ofList
      rw [isArrow_iff_trim, ← htrim]
      exact harrow
    have hlines := lines_append_cons hmessage (unlines (pointer indent file location :: snippet)).toList
    rw [← toList_unlines_cons_cons] at hlines
    have hline : arrowLine? (lines (unlines (message :: pointer indent file location :: snippet)).toList) =
        some (positionText (trimStart file.toList) location.line location.column) := by
      rw [hlines, arrowLine?_cons_of_not (not_isArrow_dropReturn harrow), arrowLine?_unlines_pointer hfile]
    rw [ofRendering, locationIn?_of_arrowLine? hline hl hn, hlines]
    dsimp only
    rw [trim_dropReturn, String.ofList_toList]
    rfl
  · intro message others hmessage hne harrow
    obtain ⟨line, more, hlines, hfirst⟩ := exists_lines_unlines hmessage hne
    have htrim : trim (String.ofList line) = trim message := by
      rcases hfirst with rfl | rfl
      · rw [String.ofList_toList]
      · rw [trim_dropReturn, String.ofList_toList]
    rw [ofRendering_of_forall_not harrow, hlines, List.head?_cons, Option.map_some, Option.getD_some, htrim]

/-- A position is read behind a file whose name has a position in it, before a snippet with an arrow; without the
arrow the same message is read alone. -/
theorem ofRendering_rendering_colons :
    ofRendering (unlines ["expected a word", pointer 5 "a:7:8" ⟨3, 18446744073709551615⟩, "--> b:1:2"]) =
      (error (trim "expected a word")).located ⟨3, 18446744073709551615⟩ ∧
    ofRendering (unlines ["expected a word", "3 | b --> c:1:2"]) = error (trim "expected a word") :=
  ⟨ofRendering_rendering.1 "expected a word" 5 "a:7:8" ⟨3, 18446744073709551615⟩ ["--> b:1:2"] (by decide) (by decide)
      (by decide) (by decide) (by decide),
    ofRendering_rendering.2.1 "expected a word" ["3 | b --> c:1:2"] (by decide) (by decide) (by decide)⟩

end ComponentHost.Diagnostic
