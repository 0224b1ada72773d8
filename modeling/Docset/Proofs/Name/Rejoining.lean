/-
  Cutting a path and joining it again.

  Three views of a path meet here: whether it is read as a qualified name, what is cut off at its last
  separator, and the list of its names.  A path is PASSABLE if it is read as a qualified name, if need be with a
  separator put in front (`Path.IsPassable`).

  **The theorem** (`Path.split_rejoins`): a passable path other than the root has a last name; what stands
  before it is nothing or a passable path; the path is what comes of joining the two again; and its names are
  those of its parent, and then the last one.

  1. With the leading separator gone, neither end of a passable path is a separator (`Path.IsPassable.body`).
     So what is trimmed off before the names are listed is the leading separator alone.
  2. Between those ends the names are the fields (`Path.segments_eq_fields`), and a name behind a separator is
     one field more (`Path.segments_child`).
  3. A path with two separators in front is cut as if it stood below the root, and joining the two halves
     would lose one of them.  No such path is passable.

  The member of a class and a final line feed hold no separator, so they stay with the last name.
-/
import Docset.Proofs.Name.Depth

namespace Docset

open Docset.Text

namespace Path

/-! ## Passable paths -/

/-- Whether a path is read as a qualified name, with a separator put in front if it has none. -/
def IsPassable (path : String) : Prop :=
  isQualified path = true ∨
    (path.toList.head? ≠ some separator ∧ isQualified (root ++ path) = true)

instance (path : String) : Decidable (IsPassable path) :=
  inferInstanceAs (Decidable (isQualified path = true ∨
    (path.toList.head? ≠ some separator ∧ isQualified (root ++ path) = true)))

/-- Qualified names start with a separator. -/
theorem head_of_isQualified {path : String} (h : isQualified path = true) :
    path.toList.head? = some separator := by
  have hbare : ∀ s : List Char, isBareQualified s = true → s.head? = some separator := by
    intro s hs
    rw [isBareQualified, Bool.and_eq_true] at hs
    cases s with
    | nil => exact absurd hs.1 (by decide)
    | cons c rest =>
      obtain ⟨hpath, -⟩ := hs
      by_cases hc : c = ':'
      · rw [hc, List.takeWhile_cons_of_neg (by decide)] at hpath
        cases hpath
      · rw [List.takeWhile_cons_of_pos (by simpa using hc), isRootedPath, Bool.and_eq_true] at hpath
        rw [List.head?_cons, eq_of_beq hpath.1]
  rw [isQualified, Bool.or_eq_true, Bool.and_eq_true] at h
  rcases h with h | ⟨-, h⟩
  · exact hbare _ h
  · have hhead := hbare _ h
    obtain ⟨rest, hrest⟩ := List.head?_eq_some_iff.1 hhead
    have hfront : path.toList.dropLast <+: path.toList := List.dropLast_prefix _
    rw [hrest] at hfront
    obtain ⟨more, hmore⟩ := hfront
    rw [← hmore]
    rfl

theorem root_append_ne_empty (path : String) : root ++ path ≠ "" := by
  intro hnil
  have hlist := congrArg String.toList hnil
  rw [toList_root_append] at hlist
  cases hlist

theorem child_ne_empty (parent name : String) : child parent name ≠ "" := by
  intro hnil
  have hlist := congrArg String.toList hnil
  rw [toList_child] at hlist
  exact List.append_ne_nil_of_right_ne_nil _ (List.cons_ne_nil _ _) hlist

theorem isPassable_root : IsPassable root := by decide

theorem isPassable_iff {path : String} : IsPassable path ↔ isQualified (rooted path) = true := by
  rw [IsPassable, rooted]
  split
  · rename_i hhead
    exact ⟨fun h => h.elim id fun hbare => absurd hhead hbare.1, Or.inl⟩
  · rename_i hhead
    exact ⟨fun h => h.elim (fun hgood => absurd (head_of_isQualified hgood) hhead) And.right,
      fun h => Or.inr ⟨hhead, h⟩⟩

/-- **A passable path has no separators at its ends** but the leading one. -/
theorem IsPassable.body {path : String} (h : IsPassable path) (hempty : path ≠ "") (hroot : path ≠ root) :
    ∃ body, body ≠ "" ∧ (path = body ∨ path = root ++ body) ∧
      body.toList.head? ≠ some separator ∧ body.toList.getLast? ≠ some separator := by
  rw [isPassable_iff, rooted] at h
  split at h
  · rename_i hhead
    obtain ⟨rest, hrest⟩ := List.head?_eq_some_iff.1 hhead
    have hbody : path = root ++ String.ofList rest := by
      rw [root_append, ← hrest, String.ofList_toList]
    have hne : String.ofList rest ≠ "" := by
      intro hnil
      rw [hnil] at hbody
      exact hroot (hbody.trans String.append_empty)
    rw [hbody] at h
    exact ⟨_, hne, Or.inr hbody, ends_of_isQualified h hne⟩
  · exact ⟨path, hempty, Or.inl rfl, ends_of_isQualified h hempty⟩

/-! ## The names of a path -/

theorem segments_root_append (path : String) : segments (root ++ path) = segments path := by
  have htrim : trimBy (· == separator) (root ++ path).toList = trimBy (· == separator) path.toList := by
    rw [toList_root_append]
    exact trimBy_cons_of_pos (by decide)
  rw [segments, segments, htrim]

/-- Without separators at the ends, the names are the fields. -/
theorem segments_eq_fields {path : String} (hempty : path ≠ "")
    (hhead : path.toList.head? ≠ some separator) (hlast : path.toList.getLast? ≠ some separator) :
    segments path = (fields separator path.toList).map String.ofList := by
  have htrim : trimBy (· == separator) path.toList = path.toList := by
    refine trimBy_eq_self (fun c hc => ?_) fun c hc => ?_
    · exact beq_eq_false_iff_ne.2 fun heq => hhead (heq ▸ hc)
    · exact beq_eq_false_iff_ne.2 fun heq => hlast (heq ▸ hc)
  rw [segments, htrim]
  cases hlist : path.toList with
  | nil => exact absurd (String.toList_eq_nil_iff.1 hlist) hempty
  | cons c names => rfl

/-- A name alone is its only name. -/
theorem segments_of_name {name : String} (hempty : name ≠ "") (hname : separator ∉ name.toList) :
    segments name = [name] := by
  rw [segments_eq_fields hempty (fun h => hname (List.mem_of_head? h))
    (fun h => hname (List.mem_of_getLast? h)), fields_of_not_mem hname]
  simp

/-- A name behind a separator is one name more. -/
theorem segments_child {parent name : String} (hempty : parent ≠ "")
    (hhead : parent.toList.head? ≠ some separator) (hlast : parent.toList.getLast? ≠ some separator)
    (hsome : name ≠ "") (hname : separator ∉ name.toList) :
    segments (child parent name) = segments parent ++ [name] := by
  have htext := toList_child parent name
  have hfront : (child parent name).toList.head? ≠ some separator := by
    cases hlist : parent.toList with
    | nil => exact absurd (String.toList_eq_nil_iff.1 hlist) hempty
    | cons c rest =>
      rw [htext, hlist]
      rw [hlist] at hhead
      exact hhead
  have hback : ¬ EndsOpen (child parent name) := mt (endsOpen_child_iff hname).1 hsome
  rw [segments_eq_fields (child_ne_empty parent name) hfront hback,
    segments_eq_fields hempty hhead hlast, htext, fields_append, fields_of_not_mem hname, List.map_append]
  simp

/-! ## Cutting off the last name -/

section Child

variable {parent name : String} (hparent : parent ≠ "") (h : IsPassable (child parent name))

include hparent h

/-- What stands before a separator of a passable path is passable. -/
theorem IsPassable.of_child : IsPassable parent := by
  have hrooted : rooted parent ≠ "" := by
    intro hnil
    rw [rooted] at hnil
    split at hnil
    · exact hparent hnil
    · exact root_append_ne_empty parent hnil
  exact isPassable_iff.2
    (isQualified_of_append (toList_rooted_append hparent) hrooted (isPassable_iff.1 h))

/-- Before the last name of a passable path there are not two separators in front. -/
theorem IsPassable.parent_ne_root : parent ≠ root := by
  rintro rfl
  have htwo : child root name = root ++ (root ++ name) := by
    rw [child, String.append_assoc]
  have hfirst : (child root name).toList.head? = some separator := by
    rw [htwo, toList_root_append, List.head?_cons]
  have hgood : isQualified (root ++ (root ++ name)) = true := by
    have hrooted := isPassable_iff.1 h
    rw [rooted, if_pos hfirst, htwo] at hrooted
    exact hrooted
  refine (ends_of_isQualified hgood (root_append_ne_empty name)).1 ?_
  rw [toList_root_append, List.head?_cons]

/-- The last name of a passable path is not empty. -/
theorem IsPassable.name_ne_empty : name ≠ "" := by
  rintro rfl
  have hopen : EndsOpen (child parent "") := (endsOpen_child_iff List.not_mem_nil).2 rfl
  have hroot : child parent "" ≠ root := by
    intro heq
    have hlength := congrArg (fun path => path.toList.length) heq
    have hpos : 0 < parent.toList.length :=
      List.length_pos_iff.2 fun hnil => hparent (String.toList_eq_nil_iff.1 hnil)
    simp only [toList_child, List.length_append, List.length_cons] at hlength
    have hone : root.toList.length = 1 := rfl
    omega
  obtain ⟨body, hne, hbody, -, hlast⟩ := h.body (child_ne_empty parent "") hroot
  -- The separator at the end of the path is at the end of what is behind the leading one.
  rcases hbody with hbody | hbody
  · rw [EndsOpen, hbody] at hopen
    exact hlast hopen
  · rw [EndsOpen, hbody, toList_root_append, List.getLast?_cons] at hopen
    cases hback : body.toList.getLast? with
    | none => exact hne (String.toList_eq_nil_iff.1 (List.getLast?_eq_none_iff.1 hback))
    | some c =>
      rw [hback] at hopen hlast
      exact hlast hopen

end Child

/-- The names of a passable path are those of its parent, and then the last one. -/
theorem IsPassable.segments_child {parent name : String} (hparent : parent ≠ "")
    (h : IsPassable (child parent name)) (hname : separator ∉ name.toList) :
    segments (child parent name) = segments parent ++ [name] := by
  have hgood := IsPassable.of_child hparent h
  have hroot := IsPassable.parent_ne_root hparent h
  have hsome := IsPassable.name_ne_empty hparent h
  obtain ⟨body, hne, hbody, hhead, hlast⟩ := hgood.body hparent hroot
  have hsegments := Path.segments_child hne hhead hlast hsome hname
  rcases hbody with rfl | rfl
  · exact hsegments
  · rw [child_root_append, segments_root_append, segments_root_append]
    exact hsegments

/-! ## The theorem -/

/-- **A passable path is its parent and its name.**  Away from the root a passable path has a last name, and
    what stands before it is nothing, or passable; the path is read off the two again; and its names are the
    names of the parent, and then the last one. -/
theorem split_rejoins {path : String} (hempty : path ≠ "") (hroot : path ≠ root)
    (h : IsPassable path) :
    (split path).2 ≠ "" ∧
      ((split path).1 = "" ∨ IsPassable (split path).1) ∧
      path = (if (split path).1 = "" then (split path).2
        else if (split path).1 = root then root ++ (split path).2
        else (split path).1 ++ root ++ (split path).2) ∧
      segments path = segments (split path).1 ++ [(split path).2] := by
  have hname := separator_not_mem_split path
  rcases split_cases path with ⟨hnone | hnone, -⟩ | ⟨-, hsplit⟩ | ⟨name, hsome, hpath, hsplit⟩ |
    ⟨parent, name, hparent, hpath, hsplit⟩
  · exact absurd hnone hempty
  · exact absurd hnone hroot
  · rw [hsplit] at hname ⊢
    exact ⟨hempty, Or.inl rfl, (if_pos rfl).symm, segments_of_name hempty hname⟩
  · rw [hsplit] at hname ⊢
    have hne : root ≠ "" := by decide
    have hnames : segments root = [] := rfl
    refine ⟨hsome, Or.inr isPassable_root, ?_, ?_⟩
    · rw [if_neg hne, if_pos rfl]
      exact hpath
    · rw [hpath, segments_root_append, segments_of_name hsome hname, hnames]
      rfl
  · rw [hsplit] at hname ⊢
    rw [hpath] at h
    refine ⟨h.name_ne_empty hparent, Or.inr (h.of_child hparent), ?_, ?_⟩
    · rw [if_neg hparent, if_neg (h.parent_ne_root hparent)]
      exact hpath
    · rw [hpath]
      exact h.segments_child hparent hname

/-- A member of a class in an unrooted namespace, with a final line feed. -/
theorem split_rejoins_member :
    let path := "A\\B::f()\n"
    path ≠ "" ∧ path ≠ root ∧ IsPassable path ∧ split path = ("A", "B::f()\n") ∧
      (split path).2 ≠ "" ∧
      ((split path).1 = "" ∨ IsPassable (split path).1) ∧
      path = (if (split path).1 = "" then (split path).2
        else if (split path).1 = root then root ++ (split path).2
        else (split path).1 ++ root ++ (split path).2) ∧
      segments path = segments (split path).1 ++ [(split path).2] := by
  intro path
  have hempty : path ≠ "" := by decide
  have hroot : path ≠ root := by decide
  have h : IsPassable path := by decide
  exact ⟨hempty, hroot, h, by decide, split_rejoins hempty hroot h⟩

/-- Two separators in front are too many: the halves of such a path do not give it back. -/
example : ¬ IsPassable "\\\\A" ∧ split "\\\\A" = (root, "A") := by decide

end Path

end Docset
