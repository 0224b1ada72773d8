/-
  Lineage: the namespaces above a namespace, by path alone.

  A namespace hangs off its parent path.  With none, a named one hangs off the root and a nameless one
  has no parent.  The parent path must be a qualified name once it has a leading separator, but it
  keeps its own spelling: what is above `App\Models` is `App`, and the root is above that.

  Going up from a path ends, for each step but the last takes something off the text
  (`Path.height_parentKey_lt`).  So `Path.lineage` lists all paths above one, and it unfolds step by
  step (`Path.lineage_eq`).
-/
import Docset.Node

namespace Docset

/-! ## One step up -/

/-- The path above a namespace with this name, path and parent path. -/
def parentKey (name path parentPath : String) : Except NameError String :=
  if parentPath = "" then
    if name = "" then .error (.noParent path) else .ok Path.root
  else
    let rooted :=
      if parentPath.toList.head? = some Path.separator then parentPath else Path.root ++ parentPath
    if isQualified rooted then .ok parentPath else .error (.malformed rooted)

/-- The path above a namespace. -/
def Node.parentKey (n : Node) : Except NameError String :=
  Docset.parentKey n.name n.path n.parentPath

/-- The path above a path. -/
def Path.parentKey (path : String) : Except NameError String :=
  let (parent, name) := Path.split path
  Docset.parentKey name path parent

/-! ## All the way up -/

/-- The paths above a path, nearest first, up to a number of them. -/
def Path.lineageWithin : Nat → String → List String
  | 0, _ => []
  | bound + 1, path =>
    match Path.parentKey path with
    | .error _ => []
    | .ok above => above :: lineageWithin bound above

/-- The paths above a path, nearest first. -/
def Path.lineage (path : String) : List String := Path.lineageWithin (path.length + 1) path

/-- A step up leads to the root or to the parent path. -/
theorem parentKey_eq_ok {name path parentPath above : String}
    (h : parentKey name path parentPath = .ok above) :
    above = Path.root ∨ (parentPath ≠ "" ∧ above = parentPath) := by
  unfold parentKey at h
  by_cases hparent : parentPath = ""
  · by_cases hname : name = ""
    · simp [hparent, hname] at h
    · simp only [hparent, hname, if_true, if_false, Except.ok.injEq] at h
      exact .inl h.symm
  · simp only [hparent, if_false] at h
    refine .inr ⟨hparent, ?_⟩
    -- Only a parent path in good form leads anywhere, and then to itself.
    generalize isQualified _ = good at h
    cases good
    · simp at h
    · simpa using h.symm

/-- How far a path is from the root at most. -/
def Path.height (path : String) : Nat := if path = Path.root then 0 else path.toList.length

theorem Path.height_le_length (path : String) : Path.height path ≤ path.length := by
  rw [Path.height, ← String.length_toList]
  split <;> omega

/-- A step up comes nearer to the root. -/
theorem Path.height_parentKey_lt {path above : String} (h : Path.parentKey path = .ok above) :
    Path.height above < Path.height path := by
  have hroot : path ≠ Path.root := by
    rintro rfl
    simp [Path.parentKey, Docset.parentKey, Path.split] at h
  have hempty : path ≠ "" := by
    rintro rfl
    simp [Path.parentKey, Docset.parentKey, Path.split] at h
  have hpos : 0 < path.toList.length :=
    List.length_pos_iff.2 fun hnil => hempty (String.toList_inj.1 hnil)
  by_cases habove : above = Path.root
  · simpa [Path.height, habove, hroot] using hpos
  · rw [Path.height, Path.height, if_neg habove, if_neg hroot]
    rcases parentKey_eq_ok h with hup | ⟨hparent, rfl⟩
    · exact absurd hup habove
    · exact Path.length_parent_lt habove hparent

/-- More steps than the height of a path allows do not lead further. -/
theorem Path.lineageWithin_eq {m n : Nat} {path : String} (hm : Path.height path < m)
    (hn : Path.height path < n) : Path.lineageWithin m path = Path.lineageWithin n path := by
  induction m generalizing n path with
  | zero => omega
  | succ m ih =>
    cases n with
    | zero => omega
    | succ n =>
      simp only [Path.lineageWithin]
      cases h : Path.parentKey path with
      | error _ => rfl
      | ok above =>
        have := Path.height_parentKey_lt h
        exact congrArg (above :: ·) (ih (by omega) (by omega))

/-- The paths above a path are the one above it and the paths above that. -/
theorem Path.lineage_eq (path : String) :
    Path.lineage path =
      match Path.parentKey path with
      | .error _ => []
      | .ok above => above :: Path.lineage above := by
  unfold Path.lineage
  rw [Path.lineageWithin]
  cases h : Path.parentKey path with
  | error _ => rfl
  | ok above =>
    have hstep := Path.height_parentKey_lt h
    have hpath := Path.height_le_length path
    have habove := Path.height_le_length above
    exact congrArg (above :: ·) (Path.lineageWithin_eq (by omega) (by omega))

/-- The paths above a namespace, nearest first. -/
def Node.lineage (n : Node) : List String :=
  match n.parentKey with
  | .error _ => []
  | .ok above => above :: Path.lineage above

example : Path.lineage "\\A\\B" = ["\\A", "\\"] ∧ Path.lineage "A\\B" = ["A", "\\"] := by decide
example : Path.lineage "A\\\\B" = [] := by decide

end Docset
