/-
  How deep a path is, and how far the root is from it.

  The depth of a path counts its names after the separators at both ends are gone; the way up cuts off one
  name at a time.  The two counts are put together by a third, that of separators.

  1. Separators at the ends do not change the depth (`Path.depth_root_append`, `Path.depth_append_root`), and
     with none there the names are one more than the separators (`Path.depth_eq_count`).
  2. What the way up goes through neither starts nor ends with a separator, apart from a leading one
     (`Path.ends_of_isQualified`).  So one step up takes one name off, or the separator at the end
     (`Path.depth_child`).
  3. Hence the way up has as many steps as the path has names, and one more where a separator stands at the
     end (`Path.length_lineage`).
-/
import Docset.Proofs.Name.Bare
import Docset.Proofs.Text.Trimming

namespace Docset

open Docset.Text

namespace Path

/-! ## Depth -/

/-- Whether a separator stands at the end of a path. -/
def EndsOpen (path : String) : Prop := path.toList.getLast? = some separator

instance (path : String) : Decidable (EndsOpen path) :=
  inferInstanceAs (Decidable (path.toList.getLast? = some separator))

theorem depth_congr {path other : String} (h : trimBy (· == separator) path.toList =
    trimBy (· == separator) other.toList) : depth path = depth other := by
  rw [depth, depth, segments, segments, h]

theorem depth_root_append (path : String) : depth (root ++ path) = depth path := by
  apply depth_congr
  rw [toList_root_append]
  exact trimBy_cons_of_pos (by decide)

theorem depth_append_root (path : String) : depth (path ++ root) = depth path := by
  apply depth_congr
  rw [String.toList_append]
  exact trimBy_concat_of_pos (by decide)

/-- The names of what is left between the separators at the ends. -/
theorem depth_of_trimmed {path : String} {c : Char} {names : List Char}
    (h : trimBy (· == separator) path.toList = c :: names) :
    depth path = (c :: names).count separator + 1 := by
  rw [depth, segments, h]
  show ((fields separator (c :: names)).map String.ofList).length = _
  rw [List.length_map, length_fields]

/-- Without separators at the ends, there is one name more than there are separators. -/
theorem depth_eq_count {path : String} (hempty : path ≠ "")
    (hhead : path.toList.head? ≠ some separator) (hlast : path.toList.getLast? ≠ some separator) :
    depth path = path.toList.count separator + 1 := by
  have htrim : trimBy (· == separator) path.toList = path.toList := by
    apply trimBy_eq_self
    · rintro x hx
      have hne : x ≠ separator := by
        rintro rfl
        exact hhead hx
      simpa using hne
    · intro x hx
      have hne : x ≠ separator := by
        rintro rfl
        exact hlast hx
      simpa using hne
  cases hlist : path.toList with
  | nil => exact absurd (String.toList_eq_nil_iff.1 hlist) hempty
  | cons c names =>
    rw [hlist] at htrim
    exact depth_of_trimmed (hlist ▸ htrim)

/-- With separators at the ends, there are fewer names. -/
theorem depth_le_count (path : String) : depth path ≤ path.toList.count separator + 1 := by
  have hcount := (trimBy_sublist (· == separator) path.toList).count_le separator
  cases htrim : trimBy (· == separator) path.toList with
  | nil =>
    rw [depth, segments, htrim]
    exact Nat.zero_le _
  | cons c names =>
    rw [htrim] at hcount
    rw [depth_of_trimmed htrim]
    omega

/-- A name alone is one name. -/
theorem depth_of_name {name : String} (hempty : name ≠ "") (hname : separator ∉ name.toList) :
    depth name = 1 := by
  rw [depth_eq_count hempty (fun h => hname (List.mem_of_head? h))
    (fun h => hname (List.mem_of_getLast? h)), List.count_eq_zero_of_not_mem hname]

/-! ## One name further -/

theorem child_empty (parent : String) : child parent "" = parent ++ root := by
  rw [child, String.append_empty]

theorem child_root_append (parent name : String) : child (root ++ parent) name = root ++ child parent name := by
  rw [child, child, String.append_assoc, String.append_assoc, String.append_assoc]

/-- A path ends with a separator if its last name is empty. -/
theorem endsOpen_child_iff {parent name : String} (hname : separator ∉ name.toList) :
    EndsOpen (child parent name) ↔ name = "" := by
  rw [EndsOpen, toList_child]
  constructor
  · intro hlast
    cases hlist : name.toList with
    | nil => exact String.toList_eq_nil_iff.1 hlist
    | cons c rest =>
      rw [List.append_cons, List.getLast?_append, hlist, List.getLast?_cons, Option.some_or,
        ← List.getLast?_cons, ← hlist] at hlast
      exact absurd (List.mem_of_getLast? hlast) hname
  · rintro rfl
    exact List.getLast?_concat

/-- One name more goes one name deeper, unless it is empty. -/
theorem depth_child {parent name : String} (hempty : parent ≠ "")
    (hhead : parent.toList.head? ≠ some separator) (hlast : parent.toList.getLast? ≠ some separator)
    (hname : separator ∉ name.toList) :
    depth (child parent name) = if name = "" then depth parent else depth parent + 1 := by
  split
  · rename_i hnone
    rw [hnone, child_empty, depth_append_root]
  · rename_i hsome
    have hopen : ¬ EndsOpen (child parent name) := mt (endsOpen_child_iff hname).1 hsome
    have htext := toList_child parent name
    have hfront : (child parent name).toList.head? ≠ some separator := by
      cases hlist : parent.toList with
      | nil => exact absurd (String.toList_eq_nil_iff.1 hlist) hempty
      | cons c rest =>
        rw [htext, hlist]
        rw [hlist] at hhead
        exact hhead
    have hne : child parent name ≠ "" := by
      intro hnil
      rw [hnil] at htext
      simp at htext
    rw [depth_eq_count hne hfront hopen, depth_eq_count hempty hhead hlast, htext, List.count_append,
      List.count_cons_self, List.count_eq_zero_of_not_mem hname]

/-! ## Qualified names -/

theorem isBareQualified_concat {s : List Char} (h : isBareQualified (s ++ [separator]) = true) :
    s = [] := by
  rw [isBareQualified, Bool.and_eq_true] at h
  obtain ⟨hpath, hmember⟩ := h
  by_cases hcolon : ':' ∈ s
  · exact absurd (mem_dropWhile_of_colon hcolon) (separator_not_mem_of_isMemberPart hmember)
  · have hplain : ∀ c ∈ s, (c != ':') = true := by
      intro c hc
      have hne : c ≠ ':' := by
        rintro rfl
        exact hcolon hc
      simpa using hne
    have htake : (s ++ [separator]).takeWhile (· != ':') = s ++ [separator] := by
      rw [List.takeWhile_append_of_pos hplain]
      rfl
    cases s with
    | nil => rfl
    | cons c rest =>
      -- The last name would be empty, and no identifier is.
      rw [htake, List.cons_append, isRootedPath, fields_append, List.all_append] at hpath
      simp [fields, isIdentifier] at hpath

theorem isBareQualified_separators (t : List Char) :
    isBareQualified (separator :: separator :: t) = false := by
  have htake : (separator :: separator :: t).takeWhile (· != ':') =
      separator :: separator :: t.takeWhile (· != ':') := by
    rw [List.takeWhile_cons_of_pos (by decide), List.takeWhile_cons_of_pos (by decide)]
  rw [isBareQualified, htake, isRootedPath, fields, if_pos rfl]
  simp [isIdentifier]

/-- **Qualified names have no separators at their ends** but the first. -/
theorem ends_of_isQualified {path : String} (h : isQualified (root ++ path) = true) (hempty : path ≠ "") :
    path.toList.head? ≠ some separator ∧ path.toList.getLast? ≠ some separator := by
  have hnil : path.toList ≠ [] := fun hnil => hempty (String.toList_eq_nil_iff.1 hnil)
  rw [isQualified, toList_root_append, Bool.or_eq_true, Bool.and_eq_true] at h
  constructor
  · intro hhead
    obtain ⟨t, ht⟩ := List.head?_eq_some_iff.1 hhead
    rw [ht] at h
    rcases h with hbare | ⟨hfeed, hbare⟩
    · rw [isBareQualified_separators] at hbare
      cases hbare
    · cases t with
      | nil => exact absurd hfeed (by decide)
      | cons c t =>
        rw [List.dropLast_cons_of_ne_nil (List.cons_ne_nil _ _),
          List.dropLast_cons_of_ne_nil (List.cons_ne_nil _ _), isBareQualified_separators] at hbare
        cases hbare
  · intro hlast
    obtain ⟨t, ht⟩ := List.getLast?_eq_some_iff.1 hlast
    rw [ht, ← List.cons_append] at h
    rcases h with hbare | ⟨hfeed, -⟩
    · cases isBareQualified_concat hbare
    · rw [List.getLast?_concat] at hfeed
      exact absurd hfeed (by decide)

/-! ## The way up -/

/-- What a path is below, apart from the root, neither starts nor ends with a separator, once a leading one
    is gone. -/
theorem exists_above {path above : String} (h : parentKey path = .ok above) (habove : above ≠ root) :
    path = child above (split path).2 ∧ ∃ tail, tail ≠ "" ∧ (above = tail ∨ above = root ++ tail) ∧
      tail.toList.head? ≠ some separator ∧ tail.toList.getLast? ≠ some separator := by
  rcases of_parentKey h with ⟨hroot, -⟩ | ⟨hempty, hpath, hgood⟩
  · exact absurd hroot habove
  refine ⟨hpath, ?_⟩
  rw [rooted] at hgood
  split at hgood
  · rename_i hhead
    obtain ⟨t, ht⟩ := List.head?_eq_some_iff.1 hhead
    have htail : above = root ++ String.ofList t := by
      rw [root_append, ← ht, String.ofList_toList]
    have hne : String.ofList t ≠ "" := by
      intro hnil
      rw [hnil] at htail
      exact habove (htail.trans String.append_empty)
    rw [htail] at hgood
    exact ⟨_, hne, Or.inr htail, ends_of_isQualified hgood hne⟩
  · exact ⟨above, hempty, Or.inl rfl, ends_of_isQualified hgood hempty⟩

/-- One step up from below the root takes a name off, or the separator at the end. -/
theorem depth_of_parentKey {path above : String} (h : parentKey path = .ok above)
    (habove : above ≠ root) :
    depth path = if (split path).2 = "" then depth above else depth above + 1 := by
  obtain ⟨hpath, tail, hne, htail, hhead, hlast⟩ := exists_above h habove
  have hdepth := depth_child hne hhead hlast (separator_not_mem_split path)
  rcases htail with heq | heq
  · rw [← heq, ← hpath] at hdepth
    exact hdepth
  · rw [← depth_root_append (child tail _), ← child_root_append, ← heq, ← hpath] at hdepth
    rw [hdepth, heq, depth_root_append]

/-- What has a path below it does not end with a separator, unless it is the root. -/
theorem not_endsOpen_above {path above : String} (h : parentKey path = .ok above)
    (habove : above ≠ root) : ¬ EndsOpen above := by
  obtain ⟨-, tail, hne, htail, -, hlast⟩ := exists_above h habove
  rcases htail with rfl | rfl
  · exact hlast
  · cases hlist : tail.toList with
    | nil => exact absurd (String.toList_eq_nil_iff.1 hlist) hne
    | cons c rest =>
      rw [EndsOpen, toList_root_append, hlist, List.getLast?_cons_cons, ← hlist]
      exact hlast

/-- Directly below the root a path has one name, or it is two separators. -/
theorem depth_of_parentKey_root {path : String} (h : parentKey path = .ok root) :
    1 = if EndsOpen path then depth path + 1 else depth path := by
  have hsep := separator_not_mem_split path
  have hpath := of_parentKey_root h
  generalize (split path).2 = name at hsep hpath
  -- Neither the empty path nor the root has anything above it.
  have hname : path = name ∨ path = root ++ name → name ≠ "" := by
    rintro hpath rfl
    rcases hpath with rfl | rfl
    · cases h
    · rw [String.append_empty, parentKey_root] at h
      cases h
  rcases hpath with hpath | hpath | hpath
  · have hne := hname (Or.inl hpath)
    have hclosed : ¬ EndsOpen path := by
      rw [hpath]
      exact fun hopen => hsep (List.mem_of_getLast? hopen)
    rw [if_neg hclosed, hpath, depth_of_name hne hsep]
  · have hne := hname (Or.inr hpath)
    have hchild : path = child "" name := by
      rw [hpath, child, String.empty_append]
    have hclosed : ¬ EndsOpen path := by
      rw [hchild]
      exact mt (endsOpen_child_iff hsep).1 hne
    rw [if_neg hclosed, hpath, depth_root_append, depth_of_name hne hsep]
  · have hopen : EndsOpen path ↔ name = "" := by
      rw [hpath]
      exact endsOpen_child_iff hsep
    rw [hpath, String.append_assoc, depth_root_append, depth_root_append, ← String.append_assoc, ← hpath]
    split
    · rename_i hend
      rw [hopen.1 hend]
      rfl
    · rename_i hend
      rw [depth_of_name (mt hopen.2 hend) hsep]

/-- **How far the root is**: the way up has as many steps as the path has names, and one more if the path
    ends with a separator. -/
theorem length_lineage (path : String) : ∀ above, parentKey path = .ok above →
    (lineage path).length = if EndsOpen path then depth path + 1 else depth path := by
  induction hpaths : lineage path generalizing path with
  | nil =>
    intro above h
    rw [lineage_eq, h] at hpaths
    cases hpaths
  | cons above rest ih =>
    intro _ _
    obtain ⟨h, hrest⟩ := lineage_eq_cons hpaths
    by_cases habove : above = root
    · subst habove
      have hend : rest = [] := hrest.symm
      rw [hend]
      exact depth_of_parentKey_root h
    · obtain ⟨next, hnext⟩ := exists_parentKey h habove
      have hlength := ih above hrest next hnext
      rw [if_neg (not_endsOpen_above h habove)] at hlength
      rw [List.length_cons, hlength, depth_of_parentKey h habove]
      obtain ⟨hpath, -⟩ := exists_above h habove
      have hopen : EndsOpen (child above (split path).2) ↔ (split path).2 = "" :=
        endsOpen_child_iff (separator_not_mem_split path)
      rw [← hpath] at hopen
      simp only [hopen]
      split <;> rfl

example : depth "\\A\\B\\" = 2 ∧ lineage "\\A\\B\\" = ["\\A\\B", "\\A", "\\"] := by decide

end Path

end Docset
