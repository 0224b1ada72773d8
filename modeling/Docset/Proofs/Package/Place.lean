/-
  Paths and places of packages.

  A package can be found in two ways: in the index under its PATH, and in the tree under the keys that
  lead to it from the root, its PLACE.  A path says its place (`Path.place`), since the names along it
  give the keys.  But not the other way round: a package without a name is kept under the same key as
  one that is called by it, so `\A\\B` and `\A\UNKNOWN\B` are two paths to one place.

  1. Between paths and the names along them there is nothing to choose (`Path.parts_ofParts`,
     `Path.ofParts_parts`), for the names of packages that tags give (`names_packageName`): no name holds
     a separator, and the first is not empty.
  2. Among many paths, the one that leads through a place FIRST says how the place is spelled
     (`Path.firstSpelling`), and later ones do not change that.
-/
import Docset.Package.Tree
import Docset.Proofs.Name.Parent
import Docset.Proofs.Text.Trimming

namespace Docset

open Docset.Text

/-! ## The names along a path -/

namespace Path

/-- The names along a path from the root; none for the root. -/
def parts (path : String) : List String :=
  if path = root then [] else packageParts (String.ofList (path.toList.drop 1))

/-- The path with names along it; with none, the root. -/
def ofParts (names : List String) : String := if names = [] then root else names.foldl child ""

/-- Whether names can stand along the path of a package. -/
def Names (names : List String) : Prop :=
  (∀ name ∈ names, separator ∉ name.toList) ∧ names.head? ≠ some ""

theorem toList_foldl_child (text : String) (names : List String) :
    (names.foldl child text).toList =
      text.toList ++ (names.map String.toList).flatMap (separator :: ·) := by
  induction names generalizing text with
  | nil => rw [List.map_nil, List.flatMap_nil, List.append_nil, List.foldl_nil]
  | cons name names ih =>
    rw [List.foldl_cons, ih, toList_child, List.map_cons, List.flatMap_cons, List.append_assoc]

theorem Names.of_append {names more : List String} (h : Names (names ++ more)) : Names names := by
  refine ⟨fun name hname => h.1 name (List.mem_append_left _ hname), ?_⟩
  cases names with
  | nil => exact fun hnone => by cases hnone
  | cons name names => exact h.2

/-- Names that can stand along a path are read off it again. -/
theorem parts_ofParts {names : List String} (h : Names names) : parts (ofParts names) = names := by
  cases names with
  | nil => rfl
  | cons name names =>
    have htext : (ofParts (name :: names)).toList =
        separator :: (name.toList ++ (names.map String.toList).flatMap (separator :: ·)) := by
      rw [ofParts, if_neg (List.cons_ne_nil _ _), toList_foldl_child]
      rfl
    -- The first name is not empty, so there is more than a separator.
    have hroot : ofParts (name :: names) ≠ root := by
      intro heq
      rw [heq] at htext
      have hempty := (List.append_eq_nil_iff.1 (List.cons.inj htext).2.symm).1
      exact h.2 (congrArg some (String.toList_eq_nil_iff.1 hempty))
    have hseparator : ∀ x ∈ name.toList :: names.map String.toList, separator ∉ x := by
      intro x hx
      rw [← List.map_cons] at hx
      obtain ⟨y, hy, rfl⟩ := List.mem_map.1 hx
      exact h.1 y hy
    rw [parts, if_neg hroot, htext, List.drop_one, List.tail_cons, packageParts, String.toList_ofList,
      fields_flatMap hseparator, ← List.map_cons, List.map_map]
    have hid : String.ofList ∘ String.toList = id := funext fun _ => String.ofList_toList
    rw [hid, List.map_id]

/-- A path from the root is the path of the names along it. -/
theorem ofParts_parts (name : String) : ofParts (parts (root ++ name)) = root ++ name := by
  rw [parts]
  split
  · rename_i hroot
    rw [hroot]
    rfl
  · have htext : (root ++ name).toList = separator :: name.toList := by
      rw [String.toList_append]
      rfl
    have hnames : packageParts name ≠ [] := by
      rw [packageParts, ne_eq, List.map_eq_nil_iff]
      exact fields_ne_nil _ _
    rw [htext, List.drop_one, List.tail_cons, String.ofList_toList, ofParts, if_neg hnames,
      ← String.toList_inj, toList_foldl_child, htext, packageParts, List.map_map]
    have hid : String.toList ∘ String.ofList = id := funext fun _ => String.toList_ofList
    rw [hid, List.map_id, flatMap_eq_join (fields_ne_nil _ _), join_fields]
    rfl

/-! ## Places -/

/-- The keys that lead from the root to the package of a path. -/
def place (path : String) : List String := (parts path).map childKey

/-- How paths spell a place: with the names along the first of them that leads through it. -/
def firstSpelling (paths : List String) (keys : List String) : Option (List String) :=
  (paths.find? fun path => keys.isPrefixOf (place path)).map fun path =>
    (parts path).take keys.length

/-- A path that leads through a place, where none before does, spells the place. -/
theorem firstSpelling_of_first {done rest : List String} {path : String} {names more : List String}
    (hdone : ∀ p ∈ done, ¬ names.map childKey <+: place p) (hpath : parts path = names ++ more) :
    firstSpelling (done ++ path :: rest) (names.map childKey) = some names := by
  have hnone : done.find? (fun p => (names.map childKey).isPrefixOf (place p)) = none := by
    rw [List.find?_eq_none]
    intro p hp hfront
    exact hdone p hp (List.isPrefixOf_iff_prefix.1 hfront)
  have hfront : (names.map childKey).isPrefixOf (place path) = true := by
    rw [List.isPrefixOf_iff_prefix, place, hpath, List.map_append]
    exact List.prefix_append _ _
  rw [firstSpelling, List.find?_append, hnone, Option.none_or, List.find?_cons, hfront,
    Option.map_some, hpath, List.length_map, List.take_left]

/-- Every path leads through the root, which is spelled with no name. -/
theorem firstSpelling_nil {paths : List String} (h : paths ≠ []) : firstSpelling paths [] = some [] := by
  cases paths with
  | nil => exact absurd rfl h
  | cons path paths => rfl

/-! ### Where spelling does not matter -/

/-- Two names with one key are one name, unless one of them is the word for no name. -/
theorem childKey_inj {x y : String} (hx : x ≠ namelessKey) (hy : y ≠ namelessKey)
    (h : childKey x = childKey y) : x = y := by
  rw [childKey, childKey] at h
  split at h
  · rename_i hxe
    split at h
    · rename_i hye
      rw [hxe, hye]
    · exact absurd h.symm hy
  · split at h
    · exact absurd h hx
    · exact h

theorem map_childKey_inj {xs ys : List String} (hxs : namelessKey ∉ xs) (hys : namelessKey ∉ ys)
    (h : xs.map childKey = ys.map childKey) : xs = ys := by
  induction xs generalizing ys with
  | nil => exact (List.map_eq_nil_iff.1 h.symm).symm
  | cons x xs ih =>
    cases ys with
    | nil => cases h
    | cons y ys =>
      rw [List.mem_cons, not_or] at hxs hys
      rw [List.map_cons, List.map_cons] at h
      obtain ⟨hhead, htail⟩ := List.cons.inj h
      rw [childKey_inj (Ne.symm hxs.1) (Ne.symm hys.1) hhead, ih hxs.2 hys.2 htail]

/-- Where no path goes through a package called by the word for no name, every path spells its place. -/
theorem firstSpelling_of_no_nameless {paths : List String} (h : ∀ p ∈ paths, namelessKey ∉ parts p)
    {path : String} (hpath : path ∈ paths) :
    firstSpelling paths (place path) = some (parts path) := by
  have hself : (place path).isPrefixOf (place path) = true :=
    List.isPrefixOf_iff_prefix.2 (List.prefix_refl _)
  have hsome : (paths.find? fun p => (place path).isPrefixOf (place p)).isSome = true :=
    List.find?_isSome.2 ⟨path, hpath, hself⟩
  obtain ⟨first, hfirst⟩ := Option.isSome_iff_exists.1 hsome
  have hfound := List.find?_some hfirst
  have hway : place path <+: place first := List.isPrefixOf_iff_prefix.1 hfound
  rw [firstSpelling, hfirst, Option.map_some]
  refine congrArg some (map_childKey_inj ?_ (h path hpath) ?_)
  · intro hmem
    exact h first (List.mem_of_find?_eq_some hfirst) (List.mem_of_mem_take hmem)
  · rw [List.map_take]
    exact (List.prefix_iff_eq_take.1 hway).symm

end Path

/-! ## The packages that tags name -/

/-- The name of a package does not start with a separator. -/
theorem head?_packageName (e : Element) : e.packageName.toList.head? ≠ some Path.separator := by
  intro h
  rw [Element.packageName, trimChar, String.toList_ofList] at h
  exact absurd (head?_trimBy h) (by decide)

/-- So its first part is not empty, unless it is the only one. -/
theorem head?_packageParts {e : Element} (h : e.packageName ≠ "") :
    (packageParts e.packageName).head? ≠ some "" := by
  cases hname : e.packageName.toList with
  | nil => exact absurd (String.toList_eq_nil_iff.1 hname) h
  | cons c rest =>
    have hc : c ≠ Path.separator := by
      rintro rfl
      exact head?_packageName e (by rw [hname]; rfl)
    obtain ⟨field, more, hcut⟩ := fields_cons_of_ne hc rest
    rw [packageParts, hname, hcut, List.map_cons, List.head?_cons]
    intro hempty
    have htext := congrArg String.toList (Option.some.inj hempty)
    rw [String.toList_ofList] at htext
    cases htext

/-- The path of the package that an element's tags name. -/
def Element.packagePath (e : Element) : String := Path.root ++ e.packageName

/-- The names along the path that tags give can stand there. -/
theorem names_packagePath (e : Element) : Path.Names (Path.parts e.packagePath) := by
  rw [Path.parts]
  split
  · refine ⟨?_, ?_⟩
    · intro name hname
      cases hname
    · intro hnone
      cases hnone
  · rename_i hroot
    have htext : e.packagePath.toList.drop 1 = e.packageName.toList := by
      rw [Element.packagePath, String.toList_append]
      rfl
    rw [htext, String.ofList_toList]
    refine ⟨?_, head?_packageParts ?_⟩
    · intro name hname
      rw [packageParts] at hname
      obtain ⟨field, hfield, rfl⟩ := List.mem_map.1 hname
      rw [String.toList_ofList]
      exact separator_not_mem_fields hfield
    · intro hempty
      refine hroot ?_
      rw [Element.packagePath, hempty]
      rfl

end Docset
