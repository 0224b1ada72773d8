/-
  The package that an element's tags name.

  The first tag "package" names the package, and the first tag "subpackage" a package below it.  White
  space at the ends goes, and then the separators there.
-/
import Docset.Element

namespace Docset

open Docset.Text

/-- The text that the tags give for the package, as it stands. -/
def Element.packageText (e : Element) : String :=
  let main := ((e.firstTag "package").map Tag.description).getD ""
  match e.firstTag "subpackage" with
  | some tag => Path.child main tag.description
  | none => main

/-- The path of the element's package, without separators at its ends; empty at the root. -/
def Element.packageName (e : Element) : String :=
  trimChar Path.separator (trim e.packageText)

end Docset
