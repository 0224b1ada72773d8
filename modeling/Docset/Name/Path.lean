/-
  Paths of names.

  A path is a text whose names stand apart by `\`; the path `\` is the root.  Nothing is checked
  here: every text is a path, with or without a leading separator, with empty names or strange ones.
  `split` cuts off the last name, `segments` lists the names, and `localName` is the name that an
  element answers to, members included (`\A::$x`, `\A::f()`).
-/
import Docset.Text.Blank
import Docset.Text.Fields

namespace Docset.Path

open Docset.Text

/-- The character between two names. -/
def separator : Char := '\\'

/-- The path of the root. -/
def root : String := "\\"

/-! ## Cutting off the last name -/

/-- The parent path and the last name.  The root and the empty path have neither; a path without a
separator is a name with no parent; directly under the root the parent is the root. -/
def split (path : String) : String × String :=
  if path = "" ∨ path = root then ("", "")
  else
    match splitLast separator path.toList with
    | none => ("", path)
    | some ([], name) => (root, String.ofList name)
    | some (parent, name) => (String.ofList parent, String.ofList name)

/-- A path is longer than its parent, if there is one and it is not the root. -/
theorem length_parent_lt {path : String} (hparent : (split path).1 ≠ root)
    (hname : (split path).1 ≠ "") : (split path).1.toList.length < path.toList.length := by
  unfold split at *
  split at hname
  · exact absurd rfl hname
  · rename_i hpath
    simp only [hpath, if_false] at hparent ⊢
    cases hcut : splitLast separator path.toList with
    | none => rw [hcut] at hname; exact absurd rfl hname
    | some cut =>
      obtain ⟨before, after⟩ := cut
      have hkeep := (splitLast_eq_some hcut).1
      cases before with
      | nil => rw [hcut] at hparent; exact absurd rfl hparent
      | cons c before =>
        simp only [String.toList_ofList]
        rw [hkeep]
        simp only [List.length_append, List.length_cons]
        omega

/-- The path one name below `parent`. -/
def child (parent name : String) : String :=
  parent ++ root ++ name

/-! ## All names -/

/-- The names of a path, without the empty ones at its ends; none for the root. -/
def segments (path : String) : List String :=
  match trimBy (· == separator) path.toList with
  | [] => []
  | names => (fields separator names).map String.ofList

/-- The number of names of a path. -/
def depth (path : String) : Nat :=
  (segments path).length

/-! ## The name of an element -/

/-- What follows the last `::`. -/
def afterScope : List Char → Option (List Char)
  | c :: d :: rest =>
    match afterScope (d :: rest) with
    | some name => some name
    | none => if c = ':' ∧ d = ':' then some rest else none
  | _ => none

/-- The list without `()` at its end. -/
def dropCall (s : List Char) : List Char :=
  if ['(', ')'].isSuffixOf s then s.take (s.length - 2) else s

/-- The name of an element: after a `::` the member's name, without the sign of a variable and the
brackets of a call, and otherwise the last name of the path. -/
def localName (path : String) : String :=
  match afterScope path.toList with
  | some name => String.ofList (dropCall (name.dropWhile (· == '$')))
  | none =>
    match splitLast separator path.toList with
    | some (_, name) => String.ofList name
    | none => path

example : split "\\App\\User" = ("\\App", "User") := by decide
example : split "\\App" = ("\\", "App") ∧ split "App" = ("", "App") := by decide
example : segments "\\\\A\\\\B\\" = ["A", "", "B"] := by decide
example : localName "\\A::$x" = "x" ∧ localName "\\A\\B::f()" = "f" := by decide

end Docset.Path
