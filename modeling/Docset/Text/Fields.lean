/-
  Cutting a text at a character.

  `fields sep` cuts at every `sep` and so has one field more than the text has separators
  (`length_fields`); writing the separators back gives the text again (`join_fields`).
  `splitLast sep` cuts once, at the last `sep`, and fails exactly on a text without one.
-/
namespace Docset.Text

/-! ## Every separator -/

/-- The texts between separators; the empty text is one empty field. -/
def fields (sep : Char) : List Char → List (List Char)
  | [] => [[]]
  | c :: rest =>
    if c = sep then [] :: fields sep rest
    else
      match fields sep rest with
      | [] => [[c]]
      | field :: more => (c :: field) :: more

/-- The fields with a separator between neighbours. -/
def join (sep : Char) : List (List Char) → List Char
  | [] => []
  | [field] => field
  | field :: more => field ++ sep :: join sep more

theorem fields_ne_nil (sep : Char) (s : List Char) : fields sep s ≠ [] := by
  cases s with
  | nil => simp [fields]
  | cons c rest =>
    rw [fields]
    split
    · simp
    · split <;> simp

/-- There is one field more than there are separators. -/
theorem length_fields (sep : Char) (s : List Char) : (fields sep s).length = s.count sep + 1 := by
  induction s with
  | nil => rfl
  | cons c rest ih =>
    rw [fields]
    by_cases h : c = sep
    · simp [h, ih]
    · rw [if_neg h, List.count_cons_of_ne h, ← ih]
      cases hf : fields sep rest with
      | nil => exact absurd hf (fields_ne_nil sep rest)
      | cons field more => simp

/-- Cutting loses nothing: the fields, joined again, are the text. -/
theorem join_fields (sep : Char) (s : List Char) : join sep (fields sep s) = s := by
  induction s with
  | nil => rfl
  | cons c rest ih =>
    rw [fields]
    cases hf : fields sep rest with
    | nil => exact absurd hf (fields_ne_nil sep rest)
    | cons field more =>
      rw [hf] at ih
      by_cases h : c = sep
      · rw [if_pos h, join, ih, h]
        · rfl
        · simp
      · rw [if_neg h]
        cases more with
        | nil => simpa [join] using ih
        | cons next more => simpa [join] using ih

/-! ## The last separator -/

/-- What stands before and after the last separator. -/
def splitLast (sep : Char) : List Char → Option (List Char × List Char)
  | [] => none
  | c :: rest =>
    match splitLast sep rest with
    | some (before, after) => some (c :: before, after)
    | none => if c = sep then some ([], rest) else none

/-- There is nothing to cut exactly where there is no separator. -/
theorem splitLast_eq_none_iff {sep : Char} {s : List Char} : splitLast sep s = none ↔ sep ∉ s := by
  induction s with
  | nil => simp [splitLast]
  | cons c rest ih =>
    rw [splitLast]
    cases hs : splitLast sep rest with
    | some cut =>
      have : sep ∈ rest := by
        have := mt ih.2
        simp only [hs, reduceCtorEq, not_false_eq_true, Decidable.not_not, forall_const] at this
        exact this
      simp [this]
    | none =>
      have := ih.1 hs
      by_cases h : c = sep
      · simp [h]
      · simp [h, this, Ne.symm h]

/-- A cut keeps the text, and no separator is left in its second part. -/
theorem splitLast_eq_some {sep : Char} {s before after : List Char}
    (h : splitLast sep s = some (before, after)) : s = before ++ sep :: after ∧ sep ∉ after := by
  induction s generalizing before with
  | nil => simp [splitLast] at h
  | cons c rest ih =>
    rw [splitLast] at h
    cases hs : splitLast sep rest with
    | some cut =>
      obtain ⟨b, a⟩ := cut
      simp only [hs, Option.some.injEq, Prod.mk.injEq] at h
      obtain ⟨rfl, rfl⟩ := h
      obtain ⟨h1, h2⟩ := ih hs
      exact ⟨by rw [h1, List.cons_append], h2⟩
    | none =>
      simp only [hs] at h
      by_cases hc : c = sep
      · simp only [hc, if_true, Option.some.injEq, Prod.mk.injEq] at h
        obtain ⟨rfl, rfl⟩ := h
        exact ⟨by simp [hc], splitLast_eq_none_iff.1 hs⟩
      · simp [hc] at h

example : fields '\\' "\\A".toList = [[], ['A']] := by decide
example : splitLast '\\' "A\\B\\C".toList = some ("A\\B".toList, ['C']) := by decide

end Docset.Text
