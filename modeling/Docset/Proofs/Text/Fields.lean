/-
  Cutting and joining.

  `fields` cuts at every separator.  What is put together at a separator is cut into the fields of its parts
  (`fields_append`), so names without separators are found again in what they are joined to
  (`fields_join`).
-/
import Docset.Text.Fields

namespace Docset

open Docset.Text

/-- Cutting a text that is put together at a separator cuts its parts. -/
theorem fields_append (sep : Char) (s t : List Char) :
    fields sep (s ++ sep :: t) = fields sep s ++ fields sep t := by
  induction s with
  | nil =>
    show fields sep (sep :: t) = [] :: fields sep t
    rw [fields, if_pos rfl]
  | cons c s ih =>
    rw [List.cons_append, fields, fields, ih]
    by_cases hc : c = sep
    · rw [if_pos hc, if_pos hc, List.cons_append]
    · rw [if_neg hc, if_neg hc]
      cases hs : fields sep s with
      | nil => exact absurd hs (fields_ne_nil sep s)
      | cons field more => rfl

theorem separator_not_mem_fields {sep : Char} {s field : List Char} (h : field ∈ fields sep s) :
    sep ∉ field := by
  induction s generalizing field with
  | nil =>
    rw [fields, List.mem_singleton] at h
    rw [h]
    exact List.not_mem_nil
  | cons c rest ih =>
    rw [fields] at h
    split at h
    · rcases List.mem_cons.1 h with rfl | h
      · exact List.not_mem_nil
      · exact ih h
    · rename_i hc
      cases hrest : fields sep rest with
      | nil => exact absurd hrest (fields_ne_nil sep rest)
      | cons first more =>
        rw [hrest] at h ih
        rcases List.mem_cons.1 h with rfl | h
        · intro hmem
          rcases List.mem_cons.1 hmem with hsep | hmem
          · exact hc hsep.symm
          · exact ih List.mem_cons_self hmem
        · exact ih (List.mem_cons_of_mem _ h)

theorem fields_of_not_mem {sep : Char} {s : List Char} (h : sep ∉ s) : fields sep s = [s] := by
  induction s with
  | nil => rfl
  | cons c rest ih =>
    rw [List.mem_cons, not_or] at h
    rw [fields, if_neg (Ne.symm h.1), ih h.2]

/-- What does not start with a separator does not start with an empty field. -/
theorem fields_cons_of_ne {sep c : Char} (hc : c ≠ sep) (rest : List Char) :
    ∃ field more, fields sep (c :: rest) = (c :: field) :: more := by
  rw [fields, if_neg hc]
  cases fields sep rest with
  | nil => exact ⟨[], [], rfl⟩
  | cons field more => exact ⟨field, more, rfl⟩

/-- Names with separators before them, but for the first, are cut into the names again. -/
theorem fields_flatMap {sep : Char} {name : List Char} {names : List (List Char)}
    (h : ∀ x ∈ name :: names, sep ∉ x) :
    fields sep (name ++ names.flatMap (sep :: ·)) = name :: names := by
  induction names generalizing name with
  | nil =>
    rw [List.flatMap_nil, List.append_nil]
    exact fields_of_not_mem (h name List.mem_cons_self)
  | cons next names ih =>
    have hnext := ih fun x hx => h x (List.mem_cons_of_mem _ hx)
    rw [List.flatMap_cons, List.cons_append, fields_append, hnext,
      fields_of_not_mem (h name List.mem_cons_self)]
    rfl

/-- Names with separators before them are the names joined, with a separator in front. -/
theorem flatMap_eq_join {sep : Char} {names : List (List Char)} (h : names ≠ []) :
    names.flatMap (sep :: ·) = sep :: join sep names := by
  induction names with
  | nil => exact absurd rfl h
  | cons name names ih =>
    cases names with
    | nil => rw [List.flatMap_cons, List.flatMap_nil, List.append_nil, join]
    | cons next names =>
      rw [List.flatMap_cons, ih (List.cons_ne_nil _ _)]
      rfl

/-- Joined names are the first, and the others with separators before them. -/
theorem join_cons (sep : Char) (name : List Char) (names : List (List Char)) :
    join sep (name :: names) = name ++ names.flatMap (sep :: ·) := by
  cases names with
  | nil => rw [join, List.flatMap_nil, List.append_nil]
  | cons next names =>
    rw [flatMap_eq_join (List.cons_ne_nil _ _), join]
    simp

/-- Names without separators are found again after joining, if there are any. -/
theorem fields_join {sep : Char} {names : List (List Char)} (hnames : names ≠ [])
    (h : ∀ name ∈ names, sep ∉ name) : fields sep (join sep names) = names := by
  cases names with
  | nil => exact absurd rfl hnames
  | cons name rest => rw [join_cons, fields_flatMap h]

/-- What is joined has nothing but separators besides the names. -/
theorem mem_join {sep c : Char} {names : List (List Char)} (h : c ∈ join sep names) :
    c = sep ∨ ∃ name ∈ names, c ∈ name := by
  cases names with
  | nil => cases h
  | cons name rest =>
    rw [join_cons, List.mem_append, List.mem_flatMap] at h
    rcases h with h | ⟨next, hnext, h⟩
    · exact Or.inr ⟨name, List.mem_cons_self, h⟩
    · rcases List.mem_cons.1 h with hc | h
      · exact Or.inl hc
      · exact Or.inr ⟨next, List.mem_cons_of_mem _ hnext, h⟩

end Docset
