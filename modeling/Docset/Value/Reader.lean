/-
  Readers: functions that give the value which a text stands for.

  Which texts stand for which values is the business of a reader.  A reader may refuse a text for its
  form, or fail in any other way, and then it says so in its own words.
-/
import Docset.Value

namespace Docset

/-- Why a reader gives no value. -/
inductive ReadError
  /-- The text has not the form of a document; what is told about it. -/
  | malformed (text : String)
  /-- Any other failure: its sort, and what is told about it. -/
  | other (sort text : String)
  deriving DecidableEq, Repr

/-- A function that gives the value of a text. -/
abbrev Reader := String → Except ReadError Value

end Docset
