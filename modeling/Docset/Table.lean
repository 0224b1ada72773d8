/-
  Tables of rows addressed by number.

  Every number addresses a row: a row that nobody wrote is blank (`default`).  So look-ups need no
  failure, `get_set` holds without a bound, and a row number stays good for ever.  `push` writes the
  first row that was never written and is how numbers are given out.
-/
namespace Docset

/-- Rows by number; all but finitely many are blank. -/
structure Table (α : Type) where
  /-- The rows written so far. -/
  rows : Array α
  deriving DecidableEq, Repr

namespace Table

variable {α : Type}

/-- The table of blank rows. -/
def empty : Table α := ⟨#[]⟩

instance : Inhabited (Table α) := ⟨empty⟩

/-- The number of the first row that was never written. -/
def size (t : Table α) : Nat := t.rows.size

/-- The row with a number. -/
def get [Inhabited α] (t : Table α) (i : Nat) : α := t.rows.getD i default

/-- Writes a row; rows skipped on the way are blank. -/
def set [Inhabited α] (t : Table α) (i : Nat) (a : α) : Table α :=
  if i < t.rows.size then ⟨t.rows.setIfInBounds i a⟩
  else ⟨(t.rows ++ Array.replicate (i - t.rows.size) default).push a⟩

/-- Changes a row. -/
def modify [Inhabited α] (t : Table α) (i : Nat) (f : α → α) : Table α := t.set i (f (t.get i))

/-- Writes the first row that was never written. -/
def push (t : Table α) (a : α) : Table α := ⟨t.rows.push a⟩

/-! ## Laws -/

@[simp] theorem size_push (t : Table α) (a : α) : (t.push a).size = t.size + 1 := by
  simp [push, size]

/-- What was pushed last stands at the old size. -/
theorem setIfInBounds_push (xs : Array α) (a b : α) :
    (xs.push a).setIfInBounds xs.size b = xs.push b := by
  ext i h₁ h₂
  · simp
  · grind

variable [Inhabited α]

/-- A write changes its row and no other. -/
theorem get_set (t : Table α) (i : Nat) (a : α) (j : Nat) :
    (t.set i a).get j = if i = j then a else t.get j := by
  simp only [set, get]
  split
  · rename_i h
    by_cases hij : i = j
    · subst hij
      simp [Array.getD_eq_getD_getElem?, h]
    · simp [Array.getD_eq_getD_getElem?, hij]
  · rename_i h
    have hsize : (t.rows ++ Array.replicate (i - t.rows.size) (default : α)).size = i := by
      simp; omega
    by_cases hij : i = j
    · subst hij
      simp only [Array.getD_eq_getD_getElem?, Array.getElem?_push, hsize, if_true]
      rfl
    · simp only [Array.getD_eq_getD_getElem?, Array.getElem?_push, hsize, Ne.symm hij, if_false, hij]
      by_cases hj : j < t.rows.size
      · rw [Array.getElem?_append_left hj]
      · rw [Array.getElem?_append_right (Nat.le_of_not_lt hj), Array.getElem?_eq_none (Nat.le_of_not_lt hj)]
        cases hr : (Array.replicate (i - t.rows.size) (default : α))[j - t.rows.size]? with
        | none => rfl
        | some b =>
          obtain ⟨hlt, hb⟩ := Array.getElem?_eq_some_iff.1 hr
          simp only [Array.getElem_replicate] at hb
          simp [hb]

@[simp] theorem get_set_self (t : Table α) (i : Nat) (a : α) : (t.set i a).get i = a := by
  simp [get_set]

/-- Changing a row acts on that row alone. -/
theorem get_modify (t : Table α) (i : Nat) (f : α → α) (j : Nat) :
    (t.modify i f).get j = if i = j then f (t.get j) else t.get j := by
  rw [modify, get_set]
  split
  · rename_i h; rw [h]
  · rfl

/-- A push writes the row at the old size. -/
theorem get_push (t : Table α) (a : α) (j : Nat) :
    (t.push a).get j = if t.size = j then a else t.get j := by
  simp only [push, get, size, Array.getD_eq_getD_getElem?, Array.getElem?_push]
  by_cases h : t.rows.size = j
  · simp [h]
  · simp [h, Ne.symm h]

/-- A row past the written ones is blank. -/
theorem get_of_size_le {t : Table α} {i : Nat} (h : t.size ≤ i) : t.get i = default := by
  simp only [size] at h
  simp [get, Array.getD_eq_getD_getElem?, Array.getElem?_eq_none h]

/-- Writing a row that was written before keeps the size. -/
theorem size_set_of_lt {t : Table α} {i : Nat} (h : i < t.size) (a : α) : (t.set i a).size = t.size := by
  simp only [size] at h
  simp [set, size, h]

/-- Of two writes of one row the later one counts. -/
theorem set_set (t : Table α) (i : Nat) (a b : α) : (t.set i a).set i b = t.set i b := by
  by_cases h : i < t.rows.size
  · simp [set, h]
  · have hsize : (t.rows ++ Array.replicate (i - t.rows.size) (default : α)).size = i := by
      simp; omega
    simp only [set, if_neg h, Array.size_push, hsize, Nat.lt_succ_self, if_true]
    -- The first write made all rows up to this one, which is now the last.
    generalize t.rows ++ Array.replicate (i - t.rows.size) (default : α) = rows at hsize
    subst hsize
    rw [setIfInBounds_push]

theorem modify_modify (t : Table α) (i : Nat) (f g : α → α) :
    (t.modify i f).modify i g = t.modify i fun a => g (f a) := by
  simp only [modify, get_set_self, set_set]

end Table

end Docset
