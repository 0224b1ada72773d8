/-
  What a plain text means.

  A plain text is a truth value, a real or a whole number, nothing at all, or a date or a time if it
  is written as one, and else just a text.  Two words are no values: `<<` takes rows over from another
  table, and `=` is a word of the language without a meaning here.
-/
import Docset.Yaml.Moment
import Docset.Yaml.Number

namespace Docset.Yaml

/-! ## Faults -/

/-- Why a document has no value. -/
inductive Fault
  | malformed (e : Malformed)
  | number (e : NumberError)
  | outOfRange (e : OutOfRange)
  /-- Lists and tables stand too deep in each other. -/
  | tooDeep
  deriving DecidableEq, Repr

/-- A fault of the text itself.  Limits are no part of its form. -/
def Fault.ofMalformed : Malformed → Fault
  | .beyond e => number (.beyond e)
  | .tooDeep => tooDeep
  | e => malformed e

/-! ## Meanings -/

/-- What a plain text means. -/
inductive Meaning
  | value (v : Value)
  /-- The rows of another table. -/
  | merge
  /-- The word without a meaning. -/
  | equals
  deriving Repr, Inhabited

/-- The words for yes. -/
def yesWords : List String :=
  ["yes", "Yes", "YES", "true", "True", "TRUE", "on", "On", "ON"]

/-- The words for no. -/
def noWords : List String :=
  ["no", "No", "NO", "false", "False", "FALSE", "off", "Off", "OFF"]

/-- The words for nothing. -/
def nullWords : List String := ["", "~", "null", "Null", "NULL"]

/-- The meaning of a plain text. -/
def Meaning.ofPlain (content : String) : Except Fault Meaning :=
  let s := content.toList
  if yesWords.contains content then .ok (.value (.flag true))
  else if noWords.contains content then .ok (.value (.flag false))
  else
    match readReal s, readWhole s with
    | some (.ok x), _ => .ok (.value (.real x))
    | some (.error e), _ => .error (.number e)
    | none, some (.ok n) => .ok (.value (.whole n))
    | none, some (.error e) => .error (.number e)
    | none, none =>
      if content = "<<" then .ok .merge
      else if nullWords.contains content then .ok (.value .null)
      else
        match readMoment s with
        | some (.ok v) => .ok (.value v)
        | some (.error e) => .error (.outOfRange e)
        | none => .ok (if content = "=" then .equals else .value (.text content))

/-- The meaning of a text; in quotes it is just a text. -/
def Meaning.ofText (content : String) (isPlain : Bool) : Except Fault Meaning :=
  if isPlain then Meaning.ofPlain content else .ok (.value (.text content))

end Docset.Yaml
