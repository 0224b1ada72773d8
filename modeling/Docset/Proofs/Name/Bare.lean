/-
  Paths without their leading separator.

  A bare path is the root, or a path that does not start with a separator.  Putting a separator in front
  of it (`Path.rooted`) changes the branches that the walk up goes through: what was the end of the text
  is now the root, and what was a parent path has become longer.  But it leads to the same place.

  1. The last name stays, and the parent path gets the separator (`Path.split_root_append`).
  2. So one step up from the rooted path leads to the rooted form of what is above, or fails with the same
     words (`Path.parentKey_rooted`), and bare paths have bare paths above them (`Path.IsBare.above`).
  3. The names on the way are the same (`Path.depth_rooted`).
-/
import Docset.Proofs.Name.Parent

namespace Docset

open Docset.Text

namespace Path

/-! ## Rooted and bare -/

/-- Whether a path is the root, or a text that does not start with a separator. -/
def IsBare (path : String) : Prop :=
  path = root ∨ (path ≠ "" ∧ path.toList.head? ≠ some separator)

instance (path : String) : Decidable (IsBare path) :=
  inferInstanceAs (Decidable (path = root ∨ (path ≠ "" ∧ path.toList.head? ≠ some separator)))

theorem toList_root_append (path : String) : (root ++ path).toList = separator :: path.toList := by
  rw [String.toList_append]
  rfl

theorem root_append_inj {p q : String} : root ++ p = root ++ q ↔ p = q := by
  constructor
  · intro h
    have hlist := congrArg String.toList h
    rw [toList_root_append, toList_root_append, List.cons_inj_right] at hlist
    exact String.toList_inj.1 hlist
  · rintro rfl
    rfl

theorem rooted_of_head {path : String} (h : path.toList.head? ≠ some separator) :
    rooted path = root ++ path := if_neg h

theorem rooted_root_append (path : String) : rooted (root ++ path) = root ++ path := by
  rw [rooted, toList_root_append, List.head?_cons, if_pos rfl]

/-- The rooted form of a bare path is the root only for the root. -/
theorem IsBare.rooted_eq_root_iff {path : String} (h : IsBare path) :
    rooted path = root ↔ path = root := by
  rcases h with rfl | ⟨hempty, hhead⟩
  · exact ⟨fun _ => rfl, fun _ => rfl⟩
  · rw [rooted_of_head hhead]
    constructor
    · intro heq
      have hroot : root ++ path = root ++ "" := heq
      exact absurd (root_append_inj.1 hroot) hempty
    · rintro rfl
      exact absurd rfl hhead

/-! ## One step up -/

section RootAppend

variable {path : String} (hempty : path ≠ "") (hhead : path.toList.head? ≠ some separator)

include hempty hhead

/-- With a separator in front the last name is the same, and the parent path has the separator. -/
theorem split_root_append : split (root ++ path) = (root ++ (split path).1, (split path).2) := by
  have hroot : path ≠ root := by
    rintro rfl
    exact hhead rfl
  have hpath : ¬ (path = "" ∨ path = root) := not_or.2 ⟨hempty, hroot⟩
  have happend : ¬ (root ++ path = "" ∨ root ++ path = root) := by
    rw [not_or]
    refine ⟨fun h => ?_, fun h => ?_⟩
    · have hlist := congrArg String.toList h
      rw [toList_root_append] at hlist
      cases hlist
    · have hroot : root ++ path = root ++ "" := h
      exact hempty (root_append_inj.1 hroot)
  rw [split, split, if_neg hpath, if_neg happend, toList_root_append, splitLast]
  cases hcut : splitLast separator path.toList with
  | none =>
    -- The separator in front is the only one.
    have hname : String.ofList path.toList = path := String.ofList_toList
    have hroot : root ++ "" = root := String.append_empty
    rw [if_pos rfl, hroot]
    exact congrArg (root, ·) hname
  | some cut =>
    obtain ⟨before, after⟩ := cut
    cases before with
    | nil =>
      rw [(splitLast_eq_some hcut).1] at hhead
      exact absurd rfl hhead
    | cons c before =>
      dsimp only
      rw [root_append]

/-- The parent path does not start with a separator either. -/
theorem head_split : (split path).1.toList.head? ≠ some separator := by
  rcases split_cases path with ⟨hnone | rfl, -⟩ | ⟨-, hsplit⟩ | ⟨name, -, rfl, -⟩ |
    ⟨parent, name, hparent, hchild, hsplit⟩
  · exact absurd hnone hempty
  · exact absurd rfl hhead
  · rw [hsplit]
    intro hfirst
    cases hfirst
  · rw [toList_root_append] at hhead
    exact absurd rfl hhead
  · rw [hsplit]
    intro hfirst
    cases hlist : parent.toList with
    | nil => exact hparent (String.toList_inj.1 hlist)
    | cons c rest =>
      rw [hlist] at hfirst
      rw [hchild, toList_child, hlist] at hhead
      exact hhead hfirst

end RootAppend

/-- **One step up from the rooted path** leads to the rooted form of what is above. -/
theorem parentKey_rooted {path : String} (h : IsBare path) :
    parentKey (rooted path) = (parentKey path).map rooted := by
  rcases h with rfl | ⟨hempty, hhead⟩
  · rfl
  · have hfirst := head_split hempty hhead
    rw [rooted_of_head hhead, parentKey_eq, parentKey_eq, split_root_append hempty hhead]
    dsimp only
    by_cases hparent : (split path).1 = ""
    · -- Without a parent path the bare path is a name, and the rooted one stands below the root.
      have hname : (split path).2 ≠ "" := by
        rcases split_cases path with ⟨hnone | rfl, -⟩ | ⟨-, hsplit⟩ | ⟨name, hname, -, hsplit⟩ |
          ⟨parent, name, hne, -, hsplit⟩
        · exact absurd hnone hempty
        · exact absurd rfl hhead
        · rw [hsplit]
          exact hempty
        · rw [hsplit]
          exact hname
        · rw [hsplit] at hparent
          exact absurd hparent hne
      have hroot : root ++ "" = root := String.append_empty
      rw [hparent, hroot, parentKey_of_root, Docset.parentKey, if_pos rfl, if_neg hname]
      rfl
    · have hne : root ++ (split path).1 ≠ "" := by
        intro hnil
        have hlist := congrArg String.toList hnil
        rw [toList_root_append] at hlist
        cases hlist
      rw [parentKey_of_ne_empty hne, parentKey_of_ne_empty hparent, rooted_root_append,
        rooted_of_head hfirst]
      split
      · rw [Except.map, rooted_of_head hfirst]
      · rfl

/-- What is above a bare path is bare. -/
theorem IsBare.above {path above : String} (h : IsBare path) (hup : parentKey path = .ok above) :
    IsBare above := by
  rcases h with rfl | ⟨hempty, hhead⟩
  · rw [parentKey_root] at hup
    cases hup
  · rcases parentKey_eq_ok hup with hroot | ⟨hparent, habove⟩
    · exact Or.inl hroot
    · rw [habove]
      exact Or.inr ⟨hparent, head_split hempty hhead⟩

/-! ## Names -/

theorem name_rooted {path : String} (h : IsBare path) : (split (rooted path)).2 = (split path).2 := by
  rcases h with rfl | ⟨hempty, hhead⟩
  · rfl
  · rw [rooted_of_head hhead, split_root_append hempty hhead]

theorem depth_rooted (path : String) : depth (rooted path) = depth path := by
  rw [rooted]
  split
  · rfl
  · have htrim : trimBy (· == separator) (root ++ path).toList =
        trimBy (· == separator) path.toList := by
      rw [toList_root_append, trimBy, trimBy, List.dropWhile_cons_of_pos (by decide)]
    rw [depth, depth, segments, segments, htrim]

/-! ## Taking the separator away -/

/-- The path without a separator in front. -/
def unrooted (path : String) : String :=
  if path.toList.head? = some separator then String.ofList path.toList.tail else path

/-- The root for the root, and for every other path the path without a separator in front. -/
def bare (path : String) : String := if path = root then root else unrooted path

theorem unrooted_root_append (path : String) : unrooted (root ++ path) = path := by
  rw [unrooted, toList_root_append, List.head?_cons, if_pos rfl, List.tail_cons, String.ofList_toList]

/-- Taking the separator away undoes putting it in front. -/
theorem bare_rooted {path : String} (h : IsBare path) : bare (rooted path) = path := by
  by_cases hroot : path = root
  · rw [hroot]
    rfl
  · rw [bare, if_neg (mt h.rooted_eq_root_iff.1 hroot)]
    rcases h with heq | ⟨-, hhead⟩
    · exact absurd heq hroot
    · rw [rooted_of_head hhead, unrooted_root_append]

end Path

example : Path.bare "\\A\\\\B\\" = "A\\\\B\\" ∧ Path.bare "\\" = "\\" := by decide

end Docset
