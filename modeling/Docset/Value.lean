/-
  Loose values: what a settings file may hold.

  A value is nothing, a truth value, a number, a date or a time, a text, a string of bytes, a list, a
  pair, a set, or a table whose keys are values again.  Settings and foreign entries of an index are loose
  values; the sections of a configuration are read out of one.

  A list or a table may stand in itself.  Of such a value as much is unfolded as is looked at, and `loop`
  marks where it is met again; the same goes for what it is written as.
-/
namespace Docset

/-! ## Dates and times -/

/-- A day of the calendar. -/
structure Day where
  year : Nat
  month : Nat
  day : Nat
  deriving DecidableEq, Repr, Inhabited

/-- A time of day, with the offset from universal time in minutes if it is known. -/
structure Clock where
  hour : Nat
  minute : Nat
  second : Nat
  micro : Nat
  offset : Option Int
  deriving DecidableEq, Repr, Inhabited

/-- Whether a year has a leap day. -/
def isLeapYear (year : Nat) : Bool := year % 4 = 0 ∧ (year % 100 ≠ 0 ∨ year % 400 = 0)

/-- The number of days in a month. -/
def monthLength (year month : Nat) : Nat :=
  if month = 2 then if isLeapYear year then 29 else 28
  else if month = 4 ∨ month = 6 ∨ month = 9 ∨ month = 11 then 30
  else 31

/-- The number of days before a day, from the start of year 1. -/
def Day.ordinal (d : Day) : Nat :=
  let years := d.year - 1
  365 * years + years / 4 - years / 100 + years / 400
    + (List.range (d.month - 1)).foldl (fun n m => n + monthLength d.year (m + 1)) 0 + (d.day - 1)

/-! ## Values -/

/-- A loose value. -/
inductive Value
  | null
  | flag (b : Bool)
  | whole (n : Int)
  | real (x : Float)
  | day (d : Day)
  | moment (d : Day) (t : Clock)
  | text (s : String)
  | bytes (content : List UInt8)
  | list (items : List Value)
  | pair (first second : Value)
  /-- A set, with its items in the order in which it lists them. -/
  | set (items : List Value)
  | table (rows : List (Value × Value))
  /-- A table, or else a list, that is met again inside of itself. -/
  | loop (isTable : Bool)
  deriving Repr, Inhabited

namespace Value

/-- The word for a value's type. -/
def typeName : Value → String
  | null => "NoneType"
  | flag _ => "bool"
  | whole _ => "int"
  | real _ => "float"
  | day _ => "date"
  | moment _ _ => "datetime"
  | text _ => "str"
  | bytes _ => "bytes"
  | list _ => "list"
  | pair _ _ => "tuple"
  | set _ => "set"
  | table _ => "dict"
  | loop isTable => if isTable then "dict" else "list"

/-- Whether a value counts as yes: it is not null, false, zero or empty. -/
def countsAsYes : Value → Bool
  | null => false
  | flag b => b
  | whole n => n != 0
  | real x => x != 0.0
  | day _ => true
  | moment _ _ => true
  | text s => s != ""
  | bytes content => !content.isEmpty
  | list items => !items.isEmpty
  | pair _ _ => true
  | set items => !items.isEmpty
  | table rows => !rows.isEmpty
  | loop _ => true

end Value

end Docset
