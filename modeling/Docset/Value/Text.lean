/-
  Loose values as text.

  A value is written in two ways.  `term` is unambiguous: texts stand in quotes, so it can be read in
  a list or a table.  `shown` is for the value alone: a text is itself, dates and times are written as
  people do, and all else is written as its term.  Neither can be had of a value that holds a whole
  number with too many digits (`isWritable`).
-/
import Docset.Decimal.Shortest
import Docset.Text.Quoted
import Docset.Value
import Docset.Value.Excess

namespace Docset

open Docset.Text

/-! ## Numbers -/

/-- Numbers are written in full if the first digit stands from three places behind the point to
sixteen before it, with `.0` behind a whole number; others have an exponent of two digits or more. -/
def Value.realStyle : Decimal.Style where
  positional point := -4 < point ∧ point ≤ 16
  wholeMark := ".0"
  exponentMark := "e"
  exponentWidth := 2
  infinity := "inf"
  notANumber := "nan"

/-- A whole number with zeros in front up to a width. -/
def zeroPadded (width n : Nat) : String :=
  String.ofList (Decimal.padded width (Decimal.digitsOf n))

/-! ## Dates and times -/

/-- A day as people write it. -/
def Day.shown (d : Day) : String :=
  zeroPadded 4 d.year ++ "-" ++ zeroPadded 2 d.month ++ "-" ++ zeroPadded 2 d.day

/-- The offset from universal time as people write it. -/
def shownOffset (minutes : Int) : String :=
  (if minutes < 0 then "-" else "+") ++ zeroPadded 2 (minutes.natAbs / 60) ++ ":"
    ++ zeroPadded 2 (minutes.natAbs % 60)

/-- A time of day as people write it. -/
def Clock.shown (t : Clock) : String :=
  zeroPadded 2 t.hour ++ ":" ++ zeroPadded 2 t.minute ++ ":" ++ zeroPadded 2 t.second
    ++ (if t.micro = 0 then "" else "." ++ zeroPadded 6 t.micro)
    ++ (match t.offset with
        | some minutes => shownOffset minutes
        | none => "")

/-- The numbers of a day, with commas. -/
def Day.numbers (d : Day) : String :=
  toString d.year ++ ", " ++ toString d.month ++ ", " ++ toString d.day

/-- The numbers of a time of day, each after a comma; seconds and less only if needed. -/
def Clock.numbers (t : Clock) : String :=
  ", " ++ toString t.hour ++ ", " ++ toString t.minute
    ++ (if t.micro ≠ 0 then ", " ++ toString t.second ++ ", " ++ toString t.micro
        else if t.second ≠ 0 then ", " ++ toString t.second
        else "")

/-- A span of time as a term: whole days downward, and seconds upward from there. -/
def spanTerm (minutes : Int) : String :=
  let days := Int.fdiv minutes 1440
  let seconds := Int.fmod minutes 1440 * 60
  let parts := (if days = 0 then [] else ["days=" ++ toString days])
    ++ (if seconds = 0 then [] else ["seconds=" ++ toString seconds])
  "datetime.timedelta(" ++ (if parts.isEmpty then "0" else String.intercalate ", " parts) ++ ")"

/-- An offset as a term. -/
def offsetTerm (minutes : Int) : String :=
  if minutes = 0 then "datetime.timezone.utc" else "datetime.timezone(" ++ spanTerm minutes ++ ")"

/-! ## Values -/

namespace Value

mutual

/-- The value as a term. -/
def term : Value → String
  | null => "None"
  | flag b => if b then "True" else "False"
  | whole n => toString n
  | real x => Decimal.ofFloat realStyle x
  | day d => "datetime.date(" ++ d.numbers ++ ")"
  | moment d t =>
    "datetime.datetime(" ++ d.numbers ++ t.numbers
      ++ (match t.offset with
          | some minutes => ", tzinfo=" ++ offsetTerm minutes
          | none => "")
      ++ ")"
  | text s => quoted s
  | bytes content => quotedBytes content
  | list items => "[" ++ String.intercalate ", " (itemTerms items) ++ "]"
  | pair first second => "(" ++ term first ++ ", " ++ term second ++ ")"
  | set items =>
    if items.isEmpty then "set()" else "\x7b" ++ String.intercalate ", " (itemTerms items) ++ "\x7d"
  | table rows => "\x7b" ++ String.intercalate ", " (rowTerms rows) ++ "\x7d"
  | loop isTable => if isTable then "\x7b...\x7d" else "[...]"

/-- The terms of the items of a list. -/
def itemTerms : List Value → List String
  | [] => []
  | v :: rest => term v :: itemTerms rest

/-- The terms of the rows of a table. -/
def rowTerms : List (Value × Value) → List String
  | [] => []
  | (k, v) :: rest => (term k ++ ": " ++ term v) :: rowTerms rest

end

mutual

/-- Whether the value can be written: no whole number in it is too long. -/
def isWritable : Value → Bool
  | whole n => Docset.isWritable n
  | list items => areItemsWritable items
  | pair first second => isWritable first && isWritable second
  | set items => areItemsWritable items
  | table rows => areRowsWritable rows
  | _ => true

/-- Whether the items of a list can be written. -/
def areItemsWritable : List Value → Bool
  | [] => true
  | v :: rest => isWritable v && areItemsWritable rest

/-- Whether the rows of a table can be written. -/
def areRowsWritable : List (Value × Value) → Bool
  | [] => true
  | (k, v) :: rest => isWritable k && isWritable v && areRowsWritable rest

end

/-- The value alone. -/
def shown : Value → String
  | text s => s
  | day d => d.shown
  | moment d t => d.shown ++ " " ++ t.shown
  | v => v.term

end Value

end Docset
