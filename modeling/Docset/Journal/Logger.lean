/-
  Loggers: their names, and which of them hang below the journal.

  A logger hangs below another one whose name is its own name cut at a dot.  The search for cuts runs
  from the end of the name, and the character before a cut is not looked at again.  Of several loggers
  that the cuts name, the nearest counts, that is the one with the longest name.  Hence most loggers
  lead up to the journal, but not all whose names start with its name: of dots side by side behind it,
  only every other one is a cut, counted from the last.
-/
namespace Docset

namespace Logger

/-- The name of the journal, which every logger's name starts with. -/
def rootName : String := "doccompiler"

/-- The full name of a logger. -/
def fullName (logger : String) : String :=
  if logger = "" then rootName else rootName ++ "." ++ logger

/-- The characters of a name, from its end to its start. -/
def fromEnd (name : String) : List Char := name.toList.reverse

/-- Whether the cuts of a name lead to `root`, past the other loggers that there are.  All names stand
from their end to their start. -/
def climbs (root : List Char) (others : List (List Char)) : List Char → Bool
  | '.' :: c :: above =>
    if c :: above = root then true
    else if c :: above ∈ others then climbs root others (c :: above)
    else climbs root others above
  | _ :: above => climbs root others above
  | [] => false

/-- Whether a logger is the journal's own or hangs below it, among loggers of these full names. -/
def belongs (others : List String) (logger : String) : Bool :=
  fullName logger = rootName ||
    climbs (fromEnd rootName) (others.map fromEnd) (fromEnd (fullName logger))

/-! ## Laws -/

/-- The nameless logger is the journal's own. -/
theorem belongs_nameless (others : List String) : belongs others "" = true := by
  simp [belongs, fullName]

end Logger

end Docset
