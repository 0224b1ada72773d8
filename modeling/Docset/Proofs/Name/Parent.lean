/-
  Parent paths.

  Going one step up from a path (`Path.parentKey`) reads off two things: what stands before the last
  separator, and whether that is a qualified name.  Three facts about it carry the theory of the tree of
  namespaces.

  1. `Path.of_parentKey` — what one step up says about the text.  Away from the root a path IS its
     parent, a separator and its name; directly below the root it is one of three spellings of its name,
     with no, one or two separators in front.
  2. `Path.eq_of_parentKey` — so a path is determined by its parent and its name, as long as the parent
     is not the root.
  3. `Path.exists_parentKey` — the walk up never gets stuck half-way: what is above something, and is
     not the root, has a path above itself.  The crux is that the qualified names are CLOSED under
     cutting off the last name (`isQualified_of_append`), members and a final line feed included.
-/
import Docset.Namespace.Lineage
import Docset.Proofs.Text.Fields

namespace Docset

open Docset.Text

/-! ## Cutting a qualified name at a separator -/

theorem separator_not_mem_of_isIdentifier {s : List Char} (h : isIdentifier s = true) :
    Path.separator ∉ s := by
  cases s with
  | nil => exact List.not_mem_nil
  | cons c rest =>
    rw [isIdentifier, Bool.and_eq_true, List.all_eq_true] at h
    intro hmem
    rcases List.mem_cons.1 hmem with hc | hrest
    · rw [← hc] at h
      exact absurd h.1 (by decide)
    · exact absurd (h.2 _ hrest) (by decide)

theorem separator_not_mem_of_dropCall {s : List Char} (h : Path.separator ∉ Path.dropCall s) :
    Path.separator ∉ s := by
  rw [Path.dropCall] at h
  split at h
  · -- What the brackets follow is what is left without them.
    rename_i hcall
    obtain ⟨before, rfl⟩ := List.isSuffixOf_iff_suffix.1 hcall
    have hlen : (before ++ ['(', ')']).length - 2 = before.length := by
      rw [List.length_append]
      rfl
    rw [hlen, List.take_left' rfl] at h
    intro hmem
    rcases List.mem_append.1 hmem with hb | hb
    · exact h hb
    · exact absurd hb (by decide)
  · exact h

/-- A member has no separator in it. -/
theorem separator_not_mem_of_isMemberPart {s : List Char} (h : isMemberPart s = true) :
    Path.separator ∉ s := by
  unfold isMemberPart at h
  split at h
  · exact List.not_mem_nil
  · have hmember := separator_not_mem_of_dropCall (separator_not_mem_of_isIdentifier h)
    intro hmem
    simp only [List.mem_cons] at hmem
    rcases hmem with hc | hc | hc | hrest
    · exact absurd hc (by decide)
    · exact absurd hc (by decide)
    · exact absurd hc (by decide)
    · exact hmember hrest
  · have hmember := separator_not_mem_of_dropCall (separator_not_mem_of_isIdentifier h)
    intro hmem
    simp only [List.mem_cons] at hmem
    rcases hmem with hc | hc | hrest
    · exact absurd hc (by decide)
    · exact absurd hc (by decide)
    · exact hmember hrest
  · cases h

/-- A separator behind a colon belongs to what would be the member. -/
theorem mem_dropWhile_of_colon {s t : List Char} (h : ':' ∈ s) :
    Path.separator ∈ (s ++ Path.separator :: t).dropWhile (· != ':') := by
  induction s with
  | nil => cases h
  | cons c s ih =>
    by_cases hc : c = ':'
    · rw [hc, List.cons_append, List.dropWhile_cons_of_neg (by decide)]
      exact List.mem_cons_of_mem _ (List.mem_append_right _ List.mem_cons_self)
    · rw [List.cons_append, List.dropWhile_cons_of_pos (by simpa using hc)]
      rcases List.mem_cons.1 h with hcolon | hs
      · exact absurd hcolon.symm hc
      · exact ih hs

/-- **Closure under cutting.**  What stands before a separator of a qualified name is a qualified name,
    unless it is nothing. -/
theorem isBareQualified_of_append {s t : List Char} (hs : s ≠ [])
    (h : isBareQualified (s ++ Path.separator :: t) = true) : isBareQualified s = true := by
  rw [isBareQualified, Bool.and_eq_true] at h
  obtain ⟨hpath, hmember⟩ := h
  have hcolon : ∀ c ∈ s, (c != ':') = true := by
    intro c hc
    by_cases heq : c = ':'
    · rw [heq] at hc
      exact absurd (mem_dropWhile_of_colon hc) (separator_not_mem_of_isMemberPart hmember)
    · simpa using heq
  have htake : (s ++ []).takeWhile (· != ':') = s ++ [] := List.takeWhile_append_of_pos hcolon
  have hdrop : (s ++ []).dropWhile (· != ':') = [] := List.dropWhile_append_of_pos hcolon
  rw [List.append_nil] at htake hdrop
  rw [isBareQualified, htake, hdrop, Bool.and_eq_true]
  refine ⟨?_, rfl⟩
  rw [List.takeWhile_append_of_pos hcolon, List.takeWhile_cons_of_pos (by decide)] at hpath
  cases s with
  | nil => exact absurd rfl hs
  | cons c rest =>
    rw [List.cons_append, isRootedPath, Bool.and_eq_true, Bool.or_eq_true] at hpath
    obtain ⟨hroot, hempty | hfields⟩ := hpath
    · -- There is a separator behind `rest`, so the path does not end here.
      rw [List.isEmpty_iff] at hempty
      exact absurd hempty (List.append_ne_nil_of_right_ne_nil _ (List.cons_ne_nil _ _))
    · rw [fields_append, List.all_append, Bool.and_eq_true] at hfields
      rw [isRootedPath, hroot, hfields.1, Bool.or_true]
      rfl

/-- The same for a text with a final line feed. -/
theorem isQualified_of_append {text parent : String} {t : List Char}
    (htext : text.toList = parent.toList ++ Path.separator :: t) (hparent : parent ≠ "")
    (h : isQualified text = true) : isQualified parent = true := by
  have hnil : parent.toList ≠ [] := fun hnil => hparent (String.toList_inj.1 hnil)
  have hbare : isBareQualified parent.toList = true := by
    rw [isQualified, htext, Bool.or_eq_true, Bool.and_eq_true] at h
    rcases h with hbare | ⟨hlast, hbare⟩
    · exact isBareQualified_of_append hnil hbare
    · -- The line feed stands behind the separator, so it is cut off with the rest.
      cases t with
      | nil =>
        rw [List.getLast?_concat] at hlast
        exact absurd hlast (by decide)
      | cons c t =>
        rw [List.dropLast_append_of_ne_nil (List.cons_ne_nil _ _), List.dropLast_cons_of_ne_nil
          (List.cons_ne_nil _ _)] at hbare
        exact isBareQualified_of_append hnil hbare
  rw [isQualified, hbare, Bool.true_or]

/-! ## Cutting off the last name -/

namespace Path

theorem root_append (name : List Char) :
    root ++ String.ofList name = String.ofList (separator :: name) := by
  rw [← String.toList_inj, String.toList_append, String.toList_ofList, String.toList_ofList]
  rfl

theorem toList_child (parent name : String) :
    (child parent name).toList = parent.toList ++ separator :: name.toList := by
  rw [child, String.toList_append, String.toList_append, List.append_assoc]
  rfl

theorem child_ofList (parent name : List Char) :
    child (String.ofList parent) (String.ofList name) =
      String.ofList (parent ++ separator :: name) := by
  rw [child, ← String.toList_inj, String.toList_append, String.toList_append, String.toList_ofList,
    String.toList_ofList, String.toList_ofList, List.append_assoc]
  rfl

/-- The four ways in which a path is cut: it has neither parent nor name, it is a name alone, it is a
    name behind one separator, or it is a parent, a separator and a name. -/
theorem split_cases (path : String) :
    ((path = "" ∨ path = root) ∧ split path = ("", "")) ∨
      (path ≠ "" ∧ split path = ("", path)) ∨
      (∃ name, name ≠ "" ∧ path = root ++ name ∧ split path = (root, name)) ∨
      (∃ parent name, parent ≠ "" ∧ path = child parent name ∧ split path = (parent, name)) := by
  by_cases hpath : path = "" ∨ path = root
  · exact Or.inl ⟨hpath, if_pos hpath⟩
  · rw [not_or] at hpath
    have hneither : ¬ (path = "" ∨ path = root) := not_or.2 hpath
    cases hcut : splitLast separator path.toList with
    | none =>
      refine Or.inr (Or.inl ⟨hpath.1, ?_⟩)
      rw [split, if_neg hneither, hcut]
    | some cut =>
      obtain ⟨before, after⟩ := cut
      have hkeep : String.ofList (before ++ separator :: after) = path := by
        rw [← (splitLast_eq_some hcut).1, String.ofList_toList]
      refine Or.inr (Or.inr ?_)
      cases before with
      | nil =>
        have hsplit : split path = (root, String.ofList after) := by
          rw [split, if_neg hneither, hcut]
        have hroot : path = root ++ String.ofList after := by rw [root_append, ← hkeep]; rfl
        refine Or.inl ⟨String.ofList after, ?_, hroot, hsplit⟩
        intro hempty
        rw [hempty, String.append_empty] at hroot
        exact hpath.2 hroot
      | cons c before =>
        have hsplit : split path = (String.ofList (c :: before), String.ofList after) := by
          rw [split, if_neg hneither, hcut]
        refine Or.inr ⟨String.ofList (c :: before), String.ofList after, ?_, ?_, hsplit⟩
        · intro hempty
          rw [← String.toList_inj, String.toList_ofList] at hempty
          cases hempty
        · rw [child_ofList, hkeep]

/-- No separator is left in the last name. -/
theorem separator_not_mem_split (path : String) : separator ∉ (split path).2.toList := by
  by_cases hpath : path = "" ∨ path = root
  · rw [split, if_pos hpath]
    exact List.not_mem_nil
  · cases hcut : splitLast separator path.toList with
    | none =>
      rw [split, if_neg hpath, hcut]
      exact splitLast_eq_none_iff.1 hcut
    | some cut =>
      obtain ⟨before, after⟩ := cut
      have hname : (split path).2 = String.ofList after := by
        rw [split, if_neg hpath, hcut]
        cases before with
        | nil => rfl
        | cons c before => rfl
      rw [hname, String.toList_ofList]
      exact (splitLast_eq_some hcut).2

/-! ## One step up -/

/-- The path with a separator in front. -/
def rooted (path : String) : String :=
  if path.toList.head? = some separator then path else root ++ path

theorem parentKey_eq (path : String) :
    parentKey path = Docset.parentKey (split path).2 path (split path).1 := rfl

/-- The root has nothing above it. -/
theorem parentKey_root : parentKey root = .error (.noParent root) := rfl

theorem parentKey_of_ne_empty {name path parentPath : String} (h : parentPath ≠ "") :
    Docset.parentKey name path parentPath =
      if isQualified (rooted parentPath) then .ok parentPath
      else .error (.malformed (rooted parentPath)) := by
  rw [Docset.parentKey, if_neg h]
  rfl

theorem parentKey_of_root (name path : String) : Docset.parentKey name path root = .ok root := by
  have hne : root ≠ "" := by decide
  have hgood : isQualified (rooted root) = true := by decide
  rw [parentKey_of_ne_empty hne, if_pos hgood]

/-- **What one step up says about the text**: it leads to the root from a name with at most one separator
    in front, or else to what stands before the last separator, which is in good form. -/
theorem of_parentKey {path above : String} (h : parentKey path = .ok above) :
    (above = root ∧ (path = (split path).2 ∨ path = root ++ (split path).2)) ∨
      (above ≠ "" ∧ path = child above (split path).2 ∧ isQualified (rooted above) = true) := by
  rw [parentKey_eq] at h
  rcases split_cases path with ⟨-, hsplit⟩ | ⟨hpath, hsplit⟩ | ⟨name, hname, hpath, hsplit⟩ |
    ⟨parent, name, hparent, hpath, hsplit⟩
  · rw [hsplit] at h
    cases h
  · rw [hsplit, Docset.parentKey, if_pos rfl, if_neg hpath] at h
    cases h
    rw [hsplit]
    exact Or.inl ⟨rfl, Or.inl rfl⟩
  · rw [hsplit, parentKey_of_root] at h
    cases h
    rw [hsplit]
    exact Or.inl ⟨rfl, Or.inr hpath⟩
  · rw [hsplit, parentKey_of_ne_empty hparent] at h
    split at h
    · rename_i hgood
      cases h
      rw [hsplit]
      exact Or.inr ⟨hparent, hpath, hgood⟩
    · cases h

/-- Away from the root, parent and name determine a path. -/
theorem eq_of_parentKey {path other above : String} (hpath : parentKey path = .ok above)
    (hother : parentKey other = .ok above) (hname : (split path).2 = (split other).2)
    (habove : above ≠ root) : path = other := by
  rcases of_parentKey hpath with ⟨hroot, -⟩ | ⟨-, hp, -⟩
  · exact absurd hroot habove
  · rcases of_parentKey hother with ⟨hroot, -⟩ | ⟨-, ho, -⟩
    · exact absurd hroot habove
    · rw [hp, ho, hname]

/-- Directly below the root a path is its name with no, one or two separators in front. -/
theorem of_parentKey_root {path : String} (h : parentKey path = .ok root) :
    path = (split path).2 ∨ path = root ++ (split path).2 ∨ path = root ++ root ++ (split path).2 := by
  rcases of_parentKey h with ⟨-, hpath | hpath⟩ | ⟨-, hpath, -⟩
  · exact Or.inl hpath
  · exact Or.inr (Or.inl hpath)
  · exact Or.inr (Or.inr hpath)

theorem toList_rooted_append {parent name : String} (hparent : parent ≠ "") :
    (rooted (child parent name)).toList =
      (rooted parent).toList ++ separator :: name.toList := by
  have hchild := toList_child parent name
  cases hlist : parent.toList with
  | nil => exact absurd (String.toList_inj.1 hlist) hparent
  | cons c rest =>
    rw [rooted, rooted, hchild, hlist, List.cons_append, List.head?_cons, List.head?_cons]
    split
    · rw [hchild, hlist, List.cons_append]
    · rw [String.toList_append, String.toList_append, hchild, hlist]
      rfl

/-- The first path of a lineage is the one above, and the rest is the lineage of that. -/
theorem lineage_eq_cons {path above : String} {rest : List String}
    (h : lineage path = above :: rest) :
    parentKey path = .ok above ∧ lineage above = rest := by
  rw [lineage_eq] at h
  cases hparent : parentKey path with
  | error _ => rw [hparent] at h; cases h
  | ok q =>
    rw [hparent] at h
    cases h
    exact ⟨rfl, rfl⟩

/-- **The walk up is not stuck half-way**: what is above a path, and is not the root, has a path above
    itself. -/
theorem exists_parentKey {path above : String} (h : parentKey path = .ok above)
    (habove : above ≠ root) : ∃ next, parentKey above = .ok next := by
  obtain ⟨hempty, -, hgood⟩ : above ≠ "" ∧ path = child above (split path).2 ∧
      isQualified (rooted above) = true := by
    rcases of_parentKey h with ⟨hroot, -⟩ | hrest
    · exact absurd hroot habove
    · exact hrest
  rw [parentKey_eq]
  rcases split_cases above with ⟨hnone | hroot, -⟩ | ⟨-, hsplit⟩ | ⟨name, -, -, hsplit⟩ |
    ⟨parent, name, hparent, hchild, hsplit⟩
  · exact absurd hnone hempty
  · exact absurd hroot habove
  · rw [hsplit, Docset.parentKey, if_pos rfl, if_neg hempty]
    exact ⟨root, rfl⟩
  · rw [hsplit, parentKey_of_root]
    exact ⟨root, rfl⟩
  · -- The parent of what is above comes before a separator of a qualified name.
    have hrooted : rooted parent ≠ "" := by
      intro hnil
      rw [rooted] at hnil
      split at hnil
      · exact hparent hnil
      · exact absurd (congrArg String.toList hnil) (by rw [String.toList_append]; simp [root])
    rw [hchild] at hgood
    have hqualified := isQualified_of_append (toList_rooted_append hparent) hrooted hgood
    rw [hsplit, parentKey_of_ne_empty hparent, if_pos hqualified]
    exact ⟨parent, rfl⟩

end Path

example : Path.lineage "\\A::b\\C" = ["\\A::b", "\\"] := by decide

end Docset
