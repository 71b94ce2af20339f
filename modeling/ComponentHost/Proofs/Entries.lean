import Mathlib.Data.List.Nodup

/-! # Named entries

Lists of entries that are looked up by name. Putting an entry in front, and taking out all others of its
name, leaves what other names stand for; where no name is there twice, an entry is there just when its name
stands for it. -/
set_option autoImplicit false

namespace ComponentHost.Entries

variable {α : Type} {entries : List (String × α)} {name other : String} {value : α}

theorem lookup_filter (entries : List (String × α)) (keep : String → Bool) (h : keep name = true) :
    (entries.filter (keep ·.1)).lookup name = entries.lookup name := by
  induction entries with
  | nil => rfl
  | cons entry entries ih =>
    obtain ⟨key, value⟩ := entry
    rw [List.filter_cons]
    by_cases hk : name = key
    · subst hk
      simp [h]
    · have hn : (name == key) = false := by simpa using hk
      split <;> simp [List.lookup_cons, hn, ih]

theorem lookup_filter_of_ne (entries : List (String × α)) (h : other ≠ name) :
    (entries.filter (·.1 != name)).lookup other = entries.lookup other :=
  lookup_filter entries (· != name) (bne_iff_ne.mpr h)

theorem lookup_map_key {β : Type} (entries : List (String × α)) (f : String → α → β) (name : String) :
    (entries.map fun e => (e.1, f e.1 e.2)).lookup name = (entries.lookup name).map (f name) := by
  induction entries with
  | nil => rfl
  | cons entry entries ih =>
    obtain ⟨key, value⟩ := entry
    rw [List.map_cons, List.lookup_cons, List.lookup_cons]
    by_cases hk : name = key
    · subst hk
      simp
    · rw [beq_eq_false_iff_ne.mpr hk]
      exact ih

theorem lookup_map {β : Type} (entries : List (String × α)) (f : α → β) (name : String) :
    (entries.map fun e => (e.1, f e.2)).lookup name = (entries.lookup name).map f :=
  lookup_map_key entries (fun _ => f) name

theorem lookup_put_of_ne (entries : List (String × α)) (value : α) (h : other ≠ name) :
    ((name, value) :: entries.filter (·.1 != name)).lookup other = entries.lookup other := by
  have ho : (other == name) = false := by simpa using h
  rw [List.lookup_cons, ho]
  exact lookup_filter_of_ne entries h

theorem filter_of_lookup_none (h : entries.lookup name = none) :
    entries.filter (·.1 != name) = entries := by
  refine List.filter_eq_self.mpr fun e he => ?_
  have hne := bne_iff_ne.mp (List.lookup_eq_none_iff.mp h e he)
  exact bne_iff_ne.mpr hne.symm

theorem filter_filter_ne {keep : String → Bool} (h : keep name = false) (entries : List (String × α)) :
    (entries.filter (·.1 != name)).filter (keep ·.1) = entries.filter (keep ·.1) := by
  rw [List.filter_filter]
  refine List.filter_congr fun e _ => ?_
  by_cases he : e.1 = name
  · simp [he, h]
  · simp [he]

theorem filter_filterMap {β : Type} {f : String × α → Option (String × β)} (keep : String → Bool)
    (hf : ∀ e x, f e = some x → x.1 = e.1) (entries : List (String × α)) :
    (entries.filterMap f).filter (keep ·.1) = (entries.filter (keep ·.1)).filterMap f := by
  rw [List.filter_filterMap, List.filterMap_filter]
  refine List.filterMap_congr fun e _ => ?_
  cases he : f e with
  | none => simp
  | some x => rw [Option.filter, hf e x he]

theorem mem_of_lookup (h : entries.lookup name = some value) : (name, value) ∈ entries := by
  obtain ⟨before, after, he, -⟩ := List.lookup_eq_some_iff.mp h
  rw [he]
  exact List.mem_append_cons_self

/-! ## Names that are there once -/

theorem split_of_lookup (hn : (entries.map Prod.fst).Nodup) (h : entries.lookup name = some value) :
    ∃ before after, entries = before ++ (name, value) :: after ∧
      (∀ e ∈ before, e.1 ≠ name) ∧ ∀ e ∈ after, e.1 ≠ name := by
  obtain ⟨before, after, he, hb⟩ := List.lookup_eq_some_iff.mp h
  refine ⟨before, after, he, fun e hm => (bne_iff_ne.mp (hb e hm)).symm, fun e hm heq => ?_⟩
  rw [he, List.map_append, List.map_cons, List.nodup_append] at hn
  exact (List.nodup_cons.mp hn.2.1).1 (List.mem_map.mpr ⟨e, hm, heq⟩)

theorem perm_of_lookup (hn : (entries.map Prod.fst).Nodup) (h : entries.lookup name = some value) :
    entries.Perm ((name, value) :: entries.filter (·.1 != name)) := by
  obtain ⟨before, after, he, hb, ha⟩ := split_of_lookup hn h
  rw [he, List.filter_append, List.filter_eq_self.mpr fun e hm => bne_iff_ne.mpr (hb e hm),
    List.filter_cons_of_neg (by simp), List.filter_eq_self.mpr fun e hm => bne_iff_ne.mpr (ha e hm)]
  exact List.perm_middle

theorem lookup_iff_mem (hn : (entries.map Prod.fst).Nodup) :
    entries.lookup name = some value ↔ (name, value) ∈ entries := by
  refine ⟨mem_of_lookup, fun hm => ?_⟩
  cases hl : entries.lookup name with
  | none => exact absurd rfl (bne_iff_ne.mp (List.lookup_eq_none_iff.mp hl _ hm))
  | some value' =>
    rcases List.mem_cons.mp ((perm_of_lookup hn hl).mem_iff.mp hm) with he | hm
    · rw [(Prod.mk.inj he).2]
    · exact absurd rfl (bne_iff_ne.mp (List.mem_filter.mp hm).2)

end ComponentHost.Entries
