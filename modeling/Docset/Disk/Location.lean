/-
  Places on a disk.

  A location lists the names from the root directory down.  Written with `/` between the names, empty
  names and `.` vanish; `..` stays a name until `normal` takes it for a step up, and a step up from
  the root stays at the root.
-/
import Docset.Text.Fields

namespace Docset

open Docset.Text

/-- The names from the root directory down. -/
structure Location where
  /-- The names; `..` may be among them. -/
  names : List String
  deriving DecidableEq, Repr, Inhabited

namespace Location

/-! ## Reading and writing -/

/-- The names in a written path. -/
def namesOf (text : String) : List String :=
  ((fields '/' text.toList).map String.ofList).filter fun name => name ≠ "" ∧ name ≠ "."

/-- The place a text names as seen from a base; a text that starts at the root does so here too. -/
def ofText (base : Location) (text : String) : Location :=
  if text.toList.head? = some '/' then ⟨namesOf text⟩ else ⟨base.names ++ namesOf text⟩

/-- The place a text names as seen from a base, where `~` in front stands for a home directory. -/
def ofHomeText (home base : Location) (text : String) : Location :=
  if text.toList.head? = some '~' then ⟨home.names ++ (namesOf text).tail⟩ else ofText base text

/-- The written form. -/
def toText (l : Location) : String :=
  match l.names with
  | [] => "/"
  | names => String.join (names.map ("/" ++ ·))

/-! ## Parts -/

/-- The last name; empty for the root. -/
def name (l : Location) : String := l.names.getLast?.getD ""

/-- The place without its last name. -/
def parent (l : Location) : Location := ⟨l.names.dropLast⟩

/-- The place one name further down. -/
def child (l : Location) (name : String) : Location := ⟨l.names ++ [name]⟩

/-- Whether a name holds a null character, which no disk takes. -/
def hasNull (l : Location) : Bool := l.names.any fun name => name.toList.contains '\x00'

/-! ## Steps up -/

/-- One step from a place: down to a name, or up at `..`. -/
def step (here : List String) (name : String) : List String :=
  if name = ".." then here.dropLast else here ++ [name]

/-- The place without `..`, each of which takes back the name before it. -/
def normal (l : Location) : Location := ⟨l.names.foldl step []⟩

example : (ofText ⟨["base"]⟩ "a/./b//../c").normal.toText = "/base/a/c" := by decide
example : (ofText ⟨["base"]⟩ "/x/../../y").normal.toText = "/y" := by decide

end Location

end Docset
