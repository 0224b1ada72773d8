/-
  Tables of code point ranges.

  A table is an array of closed ranges in ascending order, apart from each other; membership is a
  binary search over a slice of it.
-/
namespace Docset.Text

/-- Whether a range of the slice `[lo, hi)` of the table holds `n`. -/
def inSlice (table : Array (Nat × Nat)) (n lo hi : Nat) : Bool :=
  if lo < hi then
    let mid := (lo + hi) / 2
    let (first, last) := table.getD mid (0, 0)
    if n < first then inSlice table n lo mid
    else if last < n then inSlice table n (mid + 1) hi
    else true
  else false
termination_by hi - lo

/-- Whether a range of the table holds the character. -/
def inRanges (table : Array (Nat × Nat)) (c : Char) : Bool :=
  inSlice table c.toNat 0 table.size

end Docset.Text
