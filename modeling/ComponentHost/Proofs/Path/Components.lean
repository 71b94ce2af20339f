import ComponentHost.Path
import ComponentHost.Proofs.Text.Pieces

/-! # The components of paths

What is pushed to a path comes behind its components, so a path that is made absolute keeps its own components
behind those that it starts from. A file name that is joined to a directory is one component more, whatever the
directory. -/
set_option autoImplicit false

namespace ComponentHost.Path

/-- A text that is one name in a path: it holds no slash, and it is not empty, a dot or two dots. -/
structure IsName (text : String) : Prop where
  noSlash : '/' ∉ text.toList
  ne_empty : text ≠ ""
  ne_here : text ≠ "."
  ne_up : text ≠ ".."

variable {p cwd : Path} {c : Component} {piece : List Char} {text : String}

/-! ## Pieces as components -/

theorem IsName.notDot (h : IsName text) : text.toList ≠ ['.'] :=
  fun ht => h.ne_here (String.toList_inj.mp ht)

theorem IsName.ofPiece (h : IsName text) : Component.ofPiece text.toList = some (.name text) := by
  have hnil : text.toList ≠ [] := fun ht => h.ne_empty (String.toList_inj.mp ht)
  have hup : text.toList ≠ ['.', '.'] := fun ht => h.ne_up (String.toList_inj.mp ht)
  unfold Component.ofPiece
  rw [if_neg (not_or.mpr ⟨hnil, h.notDot⟩), if_neg hup, String.ofList_toList]

theorem Component.text_of_ofPiece (h : Component.ofPiece piece = some c) :
    c.text.toList = piece ∧ piece ≠ ['.'] := by
  unfold Component.ofPiece at h
  split at h
  · cases h
  · next hdot =>
    rw [not_or] at hdot
    split at h
    · next hup =>
      cases h
      exact ⟨hup.symm, hdot.2⟩
    · cases h
      exact ⟨String.toList_ofList, hdot.2⟩

theorem isName_of_ofPiece (hs : '/' ∉ piece) (h : Component.ofPiece piece = some (.name text)) :
    IsName text := by
  unfold Component.ofPiece at h
  split at h
  · cases h
  · next hdot =>
    split at h
    · cases h
    · next hup =>
      cases h
      rw [not_or] at hdot
      have htext : ∀ s : String, piece ≠ s.toList → String.ofList piece ≠ s :=
        fun s hs hp => hs (hp ▸ String.toList_ofList.symm)
      exact ⟨by rwa [String.toList_ofList], htext "" hdot.1, htext "." hdot.2, htext ".." hup⟩

theorem exists_piece_of_mem_body (h : c ∈ p.body) :
    ∃ piece, '/' ∉ piece ∧ Component.ofPiece piece = some c := by
  obtain ⟨piece, hp, hc⟩ := List.mem_filterMap.mp h
  exact ⟨piece, Text.not_mem_of_mem_pieces hp, hc⟩

/-! ## The root -/

theorem root_notMem_body : Component.root ∉ p.body := by
  intro h
  obtain ⟨piece, -, hc⟩ := exists_piece_of_mem_body h
  unfold Component.ofPiece at hc
  split at hc
  · cases hc
  · split at hc <;> cases hc

theorem isAbsolute_iff : p.isAbsolute = true ↔ .root ∈ p.components := by
  unfold components start
  rw [List.mem_append, or_iff_left root_notMem_body]
  cases p.isAbsolute with
  | true => simp
  | false => by_cases hdot : p.pieces.head? = some ['.'] <;> simp [hdot]

theorem text_ne_nil_of_isAbsolute (h : p.isAbsolute = true) : p.text.toList ≠ [] := by
  intro hnil
  unfold isAbsolute at h
  rw [hnil] at h
  cases h

/-! ## Pushing -/

/-- The pieces of a path that a text without slashes is pushed to: the text takes the place of the empty piece
at the end, if there is one, and comes behind the pieces otherwise. -/
theorem pieces_push (hs : '/' ∉ text.toList) :
    (p.text.toList = [] ∧ (p.push text).pieces = [text.toList]) ∨
    (∃ front, front ≠ [] ∧ (p.pieces = front ∨ p.pieces = front ++ [[]]) ∧
      (p.push text).pieces = front ++ [text.toList]) := by
  have htext := Text.pieces_of_not_mem hs
  unfold push pieces
  split
  · next h =>
    rcases h with hnil | hlast
    · refine .inl ⟨hnil, ?_⟩
      rw [String.toList_append, hnil, List.nil_append, htext]
    · obtain ⟨front, hfront⟩ := List.getLast?_eq_some_iff.mp hlast
      refine .inr ⟨Text.pieces '/' front, Text.pieces_ne_nil '/' front, .inr ?_, ?_⟩
      · rw [hfront, Text.pieces_append_cons]
        rfl
      · rw [String.toList_append, hfront, List.append_assoc, List.singleton_append, Text.pieces_append_cons, htext]
  · refine .inr ⟨Text.pieces '/' p.text.toList, Text.pieces_ne_nil '/' p.text.toList, .inl rfl, ?_⟩
    rw [String.toList_append, String.toList_append, List.append_assoc]
    exact (Text.pieces_append_cons '/' _ _).trans (congrArg _ htext)

theorem isAbsolute_push (hs : '/' ∉ text.toList) : (p.push text).isAbsolute = p.isAbsolute := by
  unfold isAbsolute push
  cases hp : p.text.toList with
  | nil =>
    have hhead : text.toList.head? ≠ some '/' := fun h => hs (List.mem_of_head? h)
    simp [hp, hhead]
  | cons c cs =>
    split <;> simp [hp]

theorem start_push (hs : '/' ∉ text.toList) (hdot : text.toList ≠ ['.']) : (p.push text).start = p.start := by
  have hhead : (p.push text).pieces.head? = some ['.'] ↔ p.pieces.head? = some ['.'] := by
    rcases pieces_push (p := p) hs with ⟨hnil, hpush⟩ | ⟨front, hne, hpieces, hpush⟩
    · unfold pieces at hpush ⊢
      rw [hpush, hnil]
      simp [Text.pieces, hdot]
    · obtain ⟨f, fs, rfl⟩ := List.exists_cons_of_ne_nil hne
      rw [hpush]
      rcases hpieces with h | h <;> rw [h] <;> rfl
  unfold start
  rw [isAbsolute_push hs]
  simp only [hhead]

theorem body_push (hs : '/' ∉ text.toList) :
    (p.push text).body = p.body ++ (Component.ofPiece text.toList).toList := by
  have hlast : ∀ front : List (List Char), (front ++ [text.toList]).filterMap Component.ofPiece =
      front.filterMap Component.ofPiece ++ (Component.ofPiece text.toList).toList := by
    intro front
    rw [List.filterMap_append]
    cases hc : Component.ofPiece text.toList <;> simp [hc]
  unfold body
  rcases pieces_push (p := p) hs with ⟨hnil, hpush⟩ | ⟨front, -, hpieces, hpush⟩
  · have hempty : p.pieces.filterMap Component.ofPiece = [] := by
      unfold pieces
      rw [hnil]
      rfl
    rw [hpush, hempty]
    exact hlast []
  · have hfront : p.pieces.filterMap Component.ofPiece = front.filterMap Component.ofPiece := by
      rcases hpieces with h | h
      · rw [h]
      · rw [h, List.filterMap_append]
        exact List.append_nil _
    rw [hpush, hfront, hlast]

theorem components_push (hs : '/' ∉ text.toList) (hdot : text.toList ≠ ['.']) :
    (p.push text).components = p.components ++ (Component.ofPiece text.toList).toList := by
  unfold components
  rw [start_push hs hdot, body_push hs, List.append_assoc]

/-- A file name joined to a directory is one component behind those of the directory. -/
theorem components_join (h : IsName text) : (p.join ⟨text⟩).components = p.components ++ [.name text] := by
  have hrelative : (Path.mk text).isAbsolute = false := by
    refine Bool.eq_false_iff.mpr fun habs => h.noSlash ?_
    exact List.mem_of_head? (of_decide_eq_true habs)
  unfold join
  rw [hrelative, if_neg Bool.false_ne_true, components_push h.noSlash h.notDot, h.ofPiece]
  rfl

theorem isName_of_fileName? (h : p.fileName? = some text) : IsName text := by
  have hlast : p.components.getLast? = some (.name text) := by
    unfold fileName? at h
    split at h
    · next t ht =>
      cases h
      exact ht
    · cases h
  have hmem := List.mem_of_getLast? hlast
  unfold components start at hmem
  rcases List.mem_append.mp hmem with hstart | hbody
  · split at hstart
    · cases List.mem_singleton.mp hstart
    · split at hstart
      · cases List.mem_singleton.mp hstart
      · cases hstart
  · obtain ⟨piece, hs, hc⟩ := exists_piece_of_mem_body hbody
    exact isName_of_ofPiece hs hc

/-! ## Making absolute -/

theorem components_foldl_push {cs : List Component}
    (hcs : ∀ c ∈ cs, ∃ piece, '/' ∉ piece ∧ Component.ofPiece piece = some c) :
    (cs.foldl (fun q c => q.push c.text) p).components = p.components ++ cs := by
  induction cs generalizing p with
  | nil => exact (List.append_nil _).symm
  | cons c cs ih =>
    obtain ⟨⟨piece, hs, hc⟩, hcs⟩ := List.forall_mem_cons.mp hcs
    obtain ⟨rfl, hdot⟩ := Component.text_of_ofPiece hc
    rw [List.foldl_cons, ih hcs, components_push hs hdot, hc, List.append_assoc]
    rfl

theorem absolute?_eq_none_iff : absolute? cwd p = none ↔ p.text.isEmpty = true := by
  unfold absolute?
  rw [String.isEmpty_iff, ← String.toList_eq_nil_iff]
  by_cases hp : p.text.toList = [] <;> simp [hp]

/-- Every path that is not empty has an absolute form: its own components behind those of where it starts. -/
theorem exists_absolute? (cwd : Path) (h : p.text.toList ≠ []) :
    ∃ a, absolute? cwd p = some a ∧ a.components = (anchor cwd p).components ++ p.body := by
  have hbody := components_foldl_push (p := anchor cwd p) fun c hc => exists_piece_of_mem_body (p := p) hc
  unfold absolute?
  rw [if_neg h]
  refine ⟨_, rfl, ?_⟩
  split
  · have hempty : '/' ∉ "".toList := List.not_mem_nil
    have hslash := components_push (p := p.body.foldl (fun q c => q.push c.text) (anchor cwd p)) hempty nofun
    rw [hslash, hbody]
    exact List.append_nil _
  · exact hbody

/-- An absolute path starts from the root, with one slash or two. -/
theorem components_anchor (h : p.isAbsolute = true) : (anchor cwd p).components = [.root] := by
  unfold anchor
  split
  · decide
  · decide
  · decide
  · next hhead =>
    obtain ⟨cs, hcs⟩ := List.head?_eq_some_iff.mp (of_decide_eq_true h)
    exact absurd hcs (hhead cs)

theorem absolute?_of_isAbsolute (cwd : Path) (h : p.isAbsolute = true) :
    ∃ a, absolute? cwd p = some a ∧ a.components = p.components := by
  obtain ⟨a, ha, hc⟩ := exists_absolute? cwd (text_ne_nil_of_isAbsolute h)
  refine ⟨a, ha, ?_⟩
  rw [hc, components_anchor h, components, start, if_pos h]

theorem isAbsolute_of_absolute? (hcwd : cwd.isAbsolute = true) {a : Path} (h : absolute? cwd p = some a) :
    a.isAbsolute = true := by
  have hne : p.text.toList ≠ [] := by
    intro hnil
    unfold absolute? at h
    rw [if_pos hnil] at h
    cases h
  obtain ⟨a', ha, hc⟩ := exists_absolute? cwd hne
  cases h.symm.trans ha
  rw [isAbsolute_iff, hc, List.mem_append]
  refine .inl ?_
  by_cases hp : p.isAbsolute = true
  · rw [components_anchor hp]
    exact List.mem_singleton_self _
  · have hanchor : anchor cwd p = cwd := by
      unfold anchor
      unfold isAbsolute at hp
      split
      · next hhead => simp [hhead] at hp
      · next hhead => simp [hhead] at hp
      · next hhead => simp [hhead] at hp
      · rfl
    rw [hanchor]
    exact isAbsolute_iff.mp hcwd

theorem isAbsolute_join (hp : p.isAbsolute = true) (h : IsName text) : (p.join ⟨text⟩).isAbsolute = true := by
  rw [isAbsolute_iff, components_join h]
  exact List.mem_append_left _ (isAbsolute_iff.mp hp)

end ComponentHost.Path
