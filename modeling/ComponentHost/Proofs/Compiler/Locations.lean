import ComponentHost.Proofs.Compiler.Report
import ComponentHost.Proofs.Wat.Position

/-! # Where a fault is reported

A fault is reported at its place in the trimmed source. So blanks before a source change nothing in the report, and
what is reported of a source with blanks before it is the place of the fault in the source without them. -/
set_option autoImplicit false

namespace ComponentHost

open Text

namespace Wat

/-- The message is one line, and no arrow stands at its start. -/
structure Fault.OneLine (fault : Fault) : Prop where
  noLineEnd : '\n' ∉ fault.message.toList
  noArrow : ¬ Diagnostic.IsArrow fault.message.toList

variable {fault : Fault} {text : String}

/-- The text before a fault. -/
def Fault.before (fault : Fault) (text : String) : List Char := upTo fault.offset text.toList

/-- The place of a fault in a text. -/
def Fault.place (fault : Fault) (text : String) : Location := placeAfter (fault.before text)

/-- A fault that can be marked is rendered with its place behind an arrow on a line of its own. -/
theorem render_of_le (h : (fault.place text).column ≤ lastMarkedColumn) :
    ∃ rest, (fault.render text).toList = fault.message.toList ++ '\n' ::
      ("     ".toList ++ '-' :: '-' :: '>' ::
        Diagnostic.positionText " <anon>".toList (fault.place text).line (fault.place text).column ++ '\n' :: rest) := by
  unfold Fault.render
  rw [position_eq]
  dsimp only
  rw [← Fault.before, ← Fault.place, if_neg (Nat.not_lt.mpr h)]
  have harrow : (toString "\n     --> <anon>:").toList =
      '\n' :: ("     ".toList ++ '-' :: '-' :: '>' :: (" <anon>".toList ++ [':'])) := rfl
  have hcolon : (toString ":").toList = [':'] := rfl
  have hend : (toString "\n      |\n ").toList = '\n' :: "      |\n ".toList := rfl
  simp only [String.toList_append, Diagnostic.positionText, harrow, hcolon, hend, List.append_assoc,
    List.cons_append, List.nil_append]
  exact ⟨_, rfl⟩

theorem render_of_lt (h : lastMarkedColumn < (fault.place text).column) :
    (fault.render text).toList = fault.message.toList ++ (" at ".toList ++
      Diagnostic.positionText "<anon>".toList (fault.place text).line (fault.place text).column) := by
  unfold Fault.render
  rw [position_eq]
  dsimp only
  rw [← Fault.before, ← Fault.place, if_pos h]
  have hat : (toString " at <anon>:").toList = " at ".toList ++ ("<anon>".toList ++ [':']) := rfl
  have hcolon : (toString ":").toList = [':'] := rfl
  simp only [String.toList_append, Diagnostic.positionText, hat, hcolon, List.append_assoc, List.cons_append,
    List.nil_append]
  rfl

theorem line_le (fault : Fault) (text : String) : (fault.place text).line ≤ text.length + 1 := by
  have hcount : (fault.before text).count '\n' ≤ (fault.before text).length := List.count_le_length
  have hprefix : (fault.before text).length ≤ text.toList.length := (upTo_isPrefix _ _).length_le
  rw [String.length_toList] at hprefix
  exact Nat.succ_le_succ (hcount.trans hprefix)

/-- What is read back from a rendered fault is its place, if that can be marked. -/
theorem Fault.OneLine.locationIn?_render (h : fault.OneLine) (hsize : text.length + 1 < UInt64.size) :
    Diagnostic.locationIn? (fault.render text).toList =
      if (fault.place text).column ≤ lastMarkedColumn then some (fault.place text) else none := by
  split
  · next hc =>
    obtain ⟨rest, hrest⟩ := render_of_le hc
    have hcolumn : (fault.place text).column < UInt64.size := hc.trans_lt (by decide)
    rw [hrest, Diagnostic.locationIn?_rendered h.noLineEnd h.noArrow (List.all_eq_true.mp (by decide)) (by decide)
      (by decide) ((line_le fault text).trans_lt hsize) hcolumn]
  · next hc =>
    rw [render_of_lt (Nat.lt_of_not_le hc)]
    have hdigits : ∀ n : Nat, '\n' ∉ (toString n).toList := fun n => Diagnostic.notMem_toString rfl
    refine Diagnostic.locationIn?_of_notMem ?line fun harrow => ?arrow
    case line =>
      simp only [Diagnostic.positionText, List.mem_append, List.mem_cons, not_or]
      exact ⟨h.noLineEnd, by decide, by decide, by decide, hdigits _, by decide, hdigits _⟩
    case arrow =>
      rcases Diagnostic.IsArrow.of_append_space harrow with hm | hat
      · exact h.noArrow hm
      · exact Diagnostic.not_isArrow_cons rfl (by decide) _ hat

end Wat

namespace Compiler

open Wat

variable {compiler : Compiler} {fs : FileSystem} {level : OptimizationLevel} {w s : String} {fault : Fault}
  {d : Diagnostic}

/-! ## Which diagnostics have a location -/

theorem Reports.location_eq_none {component : Component} {ds : List Diagnostic}
    (h : compiler.Reports fs component ds) : ∀ d ∈ ds, d.location = none := by
  obtain ⟨faults, missing, idle, rfl, hf, hm, hi⟩ := h
  simp only [List.forall_mem_append]
  exact ⟨⟨hf.forall_mem fun _ _ ⟨_, _, he⟩ => he ▸ rfl, hm.forall_mem fun _ _ ⟨_, he⟩ => he ▸ rfl⟩,
    hi.forall_mem fun _ _ ⟨_, _, _, he⟩ => he ▸ rfl⟩

/-- A text has no component because it cannot be read or because what it holds is not valid. -/
theorem parse_error_cases {text : String} {f : Component.Fault} (h : Component.parse text = .error f) :
    (∃ fault, Source.parse text = .error fault) ∨ ∃ reason, f = .invalid reason := by
  cases hp : Source.parse text with
  | error fault => exact .inl ⟨fault, rfl⟩
  | ok source =>
    refine .inr ?_
    unfold Component.parse at h
    rw [hp] at h
    cases source with
    | module _ =>
      cases h
      exact ⟨_, rfl⟩
    | component definitions =>
      dsimp only at h
      cases hcheck : Component.check definitions with
      | ok c =>
        rw [hcheck] at h
        cases h
      | error reason =>
        rw [hcheck] at h
        cases h
        exact ⟨reason, rfl⟩

/-- Only a source that cannot be read has a report with a location. -/
theorem parse_error_of_located (hd : d ∈ report (compiler.compile fs level s)) (hl : d.location ≠ none) :
    ∃ fault, Source.parse (trim s) = .error fault := by
  unfold compile at hd
  dsimp only at hd
  split at hd
  · cases List.mem_singleton.mp hd
    exact absurd rfl hl
  · split at hd
    · next f hf =>
      refine (parse_error_cases hf).resolve_right ?_
      rintro ⟨reason, rfl⟩
      cases List.mem_singleton.mp hd
      exact hl rfl
    · exact absurd ((finish_reports compiler fs level _).location_eq_none d hd) hl

theorem compile_append (hw : ∀ c ∈ w.toList, isBlank c = true) (s : String) :
    compiler.compile fs level (w ++ s) = compiler.compile fs level s := by
  unfold compile
  rw [trim_append hw]

theorem compile_of_parse_error (hs : ∃ c ∈ s.toList, isBlank c = false)
    (hp : Source.parse (trim s) = .error fault) :
    compiler.compile fs level s = .error ⟨[.ofRendering (fault.render (trim s))]⟩ := by
  have hparse : Component.parse (trim s) = .error (.malformed fault (trim s)) := by
    rw [Component.parse, hp]
  unfold compile
  dsimp only
  rw [if_neg (trim_not_isEmpty hs), hparse]
  rfl

/-- Blanks before a source change nothing of its report. A location is reported of sources only that cannot be
read, and where the fault is told in one line, it is the place of the fault in the source without the blanks. With
blanks before it, that is the place in the source that was given only when they hold no line end and the fault is on
a later line. -/
theorem locations_ignore_blanks_before (compiler : Compiler) (fs : FileSystem) (level : OptimizationLevel)
    {w s : String} (hw : ∀ c ∈ w.toList, isBlank c = true) (hs : ∃ c, s.toList.head? = some c ∧ isBlank c = false)
    (hsize : s.length + 1 < UInt64.size) :
    compiler.compile fs level (w ++ s) = compiler.compile fs level s ∧
    (∀ d ∈ report (compiler.compile fs level s), d.location ≠ none →
      ∃ fault, Source.parse (trim s) = .error fault) ∧
    ∀ fault, Source.parse (trim s) = .error fault → fault.OneLine → ∃ d,
      compiler.compile fs level (w ++ s) = .error ⟨[d]⟩ ∧ fault.before (trim s) <+: s.toList ∧
      d.location = (if (fault.place (trim s)).column ≤ lastMarkedColumn then some (fault.place (trim s)) else none) ∧
      (d.location = some (placeAfter (w.toList ++ fault.before (trim s))) ↔
        (fault.place (trim s)).column ≤ lastMarkedColumn ∧ '\n' ∉ w.toList ∧
          (w.toList = [] ∨ '\n' ∈ fault.before (trim s))) := by
  refine ⟨compile_append hw s, fun d => parse_error_of_located, fun fault hp hline => ?_⟩
  have hnotBlank : ∃ c ∈ s.toList, isBlank c = false := by
    obtain ⟨c, hc, hb⟩ := hs
    exact ⟨c, List.mem_of_head? hc, hb⟩
  have hprefix := trim_isPrefix hs
  have hlength : (trim s).length + 1 < UInt64.size := by
    have hle := hprefix.length_le
    rw [String.length_toList, String.length_toList] at hle
    exact (Nat.succ_le_succ hle).trans_lt hsize
  have hlocation : (Diagnostic.ofRendering (fault.render (trim s))).location =
      if (fault.place (trim s)).column ≤ lastMarkedColumn then some (fault.place (trim s)) else none := by
    rw [Diagnostic.location_ofRendering, hline.locationIn?_render hlength]
  refine ⟨.ofRendering (fault.render (trim s)), ?_, (upTo_isPrefix _ _).trans hprefix, hlocation, ?_⟩
  · rw [compile_append hw, compile_of_parse_error hnotBlank hp]
  · rw [hlocation, ← placeAfter_append_eq_iff hw]
    split
    · next hc => rw [Option.some.injEq, and_iff_right hc, Fault.place, eq_comm]
    · next hc => exact iff_of_false nofun fun h => hc h.1

/-- What is reported of a source that is compiled without references. -/
def reportAlone (source : String) : List Diagnostic :=
  report (compile (empty ⟨"/"⟩ ⟨"/"⟩) Boundary.nestedFiles .release source)

/-- Spaces at the start of the first line leave the place of a fault on the second as it was. -/
theorem location_kept_on_later_line :
    ∃ d, compile (empty ⟨"/"⟩ ⟨"/"⟩) Boundary.nestedFiles .release ("  " ++ "(component\n(bogus))") = .error ⟨[d]⟩ ∧
      d.location = some (placeAfter "  (component\n(".toList) := by
  have heval : (match Source.parse (trim "(component\n(bogus))") with
      | .error fault => some fault
      | .ok _ => none) = some ⟨"expected valid component field", 12⟩ := by
    decide +kernel
  have hline : Fault.OneLine ⟨"expected valid component field", 12⟩ :=
    ⟨by decide, Diagnostic.not_isArrow_cons rfl (by decide) _⟩
  have hbefore : Fault.before ⟨"expected valid component field", 12⟩ (trim "(component\n(bogus))") =
      "(component\n(".toList := by
    decide +kernel
  split at heval
  · next fault hp =>
    cases heval
    obtain ⟨-, -, hfault⟩ := locations_ignore_blanks_before (empty ⟨"/"⟩ ⟨"/"⟩) Boundary.nestedFiles .release
      (w := "  ") (s := "(component\n(bogus))") (List.all_eq_true.mp (by decide)) ⟨'(', rfl, rfl⟩ (by decide)
    obtain ⟨d, hd, -, -, hplace⟩ := hfault _ hp hline
    rw [Fault.place, hbefore] at hplace
    exact ⟨d, hd, hplace.mpr (by decide)⟩
  · cases heval

/-- A line that is put before a source does not move the place that is reported. -/
theorem location_ignores_line_before :
    (reportAlone "(component (bogus))").map Diagnostic.location = [some (placeAfter "(component (".toList)] ∧
    (reportAlone ("\n" ++ "(component (bogus))")).map Diagnostic.location =
      [some (placeAfter "(component (".toList)] ∧
    placeAfter ("\n" ++ "(component (").toList ≠ placeAfter "(component (".toList := by
  have hplace : (reportAlone "(component (bogus))").map Diagnostic.location =
      [some (placeAfter "(component (".toList)] := by
    decide +kernel
  have hsame : reportAlone ("\n" ++ "(component (bogus))") = reportAlone "(component (bogus))" := by
    unfold reportAlone
    rw [compile_append (List.all_eq_true.mp (by decide))]
  rw [hsame]
  exact ⟨hplace, hplace, by decide +kernel⟩

-- a quoted name in a message may end its line and name a place of its own
example : (reportAlone "(component (export \"e\" (instance $\"a\\n--> :7:9\\n\")))").map Diagnostic.location =
    [some ⟨7, 9⟩] := by
  decide +kernel

end Compiler

end ComponentHost
