/-
  Dates and times of a document.

  A date has four digits for the year and two each for month and day.  A time may follow it, and then
  one digit is enough for month, day and hour; it may have a fraction of a second, of which six
  digits count, and an offset from universal time.  A text may be written so and still be no date:
  then it says which of its numbers is out of range.
-/
import Docset.Value.Text
import Docset.Yaml.Quoted

namespace Docset.Yaml

/-! ## Ranges -/

/-- A number of a date or a time that is out of range. -/
inductive OutOfRange
  | year (n : Nat)
  | month
  | day
  | hour
  | minute
  | second
  /-- An offset of a day or more. -/
  | offset (minutes : Int)
  deriving DecidableEq, Repr

/-- What is told about it. -/
def OutOfRange.message : OutOfRange → String
  | year n => "year " ++ toString n ++ " is out of range"
  | month => "month must be in 1..12"
  | day => "day is out of range for month"
  | hour => "hour must be in 0..23"
  | minute => "minute must be in 0..59"
  | second => "second must be in 0..59"
  | offset minutes =>
    "offset must be a timedelta strictly between -timedelta(hours=24) and timedelta(hours=24), not "
      ++ spanTerm minutes ++ "."

/-- A date whose numbers are in range. -/
def checkedDay (d : Day) : Except OutOfRange Day :=
  if d.year = 0 then .error (.year 0)
  else if d.month = 0 ∨ 12 < d.month then .error .month
  else if d.day = 0 ∨ monthLength d.year d.month < d.day then .error .day
  else .ok d

/-- A time whose numbers are in range. -/
def checkedClock (t : Clock) : Except OutOfRange Clock :=
  if 23 < t.hour then .error .hour
  else if 59 < t.minute then .error .minute
  else if 59 < t.second then .error .second
  else .ok t

/-- An offset of less than a day. -/
def checkedOffset (minutes : Int) : Except OutOfRange Int :=
  if minutes.natAbs < 1440 then .ok minutes else .error (.offset minutes)

/-! ## Reading -/

/-- A reader of the start of a text. -/
abbrev Reader := StateT (List Char) Option

/-- A number of as many digits as there are, up to `most` and from `least`. -/
def digits (least most : Nat) : Reader Nat := fun s =>
  let found := (s.take most).takeWhile Char.isDigit
  if least ≤ found.length then (readDigits 10 found).map fun n => (n, s.drop found.length) else none

/-- One character of a class. -/
def oneOf (p : Char → Bool) : Reader Char
  | c :: rest => if p c then some (c, rest) else none
  | [] => none

/-- The digits up to the next other character. -/
def digitRun : Reader (List Char) := fun s =>
  let found := s.takeWhile Char.isDigit
  some (found, s.drop found.length)

/-- The longest run of spaces. -/
def spaces : Reader Nat := fun s =>
  let found := s.takeWhile (· == ' ')
  some (found.length, s.drop found.length)

/-- The end of the text. -/
def atEnd : Reader Unit
  | [] => some ((), [])
  | _ => none

/-- The first reader that can read. -/
def either {α : Type} (first second : Reader α) : Reader α := fun s => first s <|> second s

/-- A date alone. -/
def dayAlone : Reader Day := do
  let year ← digits 4 4
  let _ ← oneOf (· == '-')
  let month ← digits 2 2
  let _ ← oneOf (· == '-')
  let day ← digits 2 2
  atEnd
  pure ⟨year, month, day⟩

/-- The millionths of a second behind a point. -/
def millionths : Reader Nat := do
  let _ ← oneOf (· == '.')
  let found := (← digitRun).take 6
  match readDigits 10 (found ++ List.replicate (6 - found.length) '0') with
  | some n => pure n
  | none => failure

/-- An offset from universal time, in minutes. -/
def offset : Reader Int := do
  let _ ← spaces
  let mark ← oneOf fun c => c == 'Z' || c == '+' || c == '-'
  if mark == 'Z' then pure 0
  else
    let hours ← digits 1 2
    let minutes ← either (do let _ ← oneOf (· == ':'); digits 2 2) (pure 0)
    let all : Int := hours * 60 + minutes
    pure (if mark == '-' then -all else all)

/-- A date and a time. -/
def dayAndClock : Reader (Day × Clock) := do
  let year ← digits 4 4
  let _ ← oneOf (· == '-')
  let month ← digits 1 2
  let _ ← oneOf (· == '-')
  let day ← digits 1 2
  let gap ← spaces
  if gap = 0 then
    let _ ← oneOf fun c => c == 'T' || c == 't'
  let hour ← digits 1 2
  let _ ← oneOf (· == ':')
  let minute ← digits 2 2
  let _ ← oneOf (· == ':')
  let second ← digits 2 2
  let micro ← either millionths (pure 0)
  let offset ← either (some <$> offset) (pure none)
  atEnd
  pure (⟨year, month, day⟩, ⟨hour, minute, second, micro, offset⟩)

/-- The date, or the date and the time, that a text is; the offset is looked at first. -/
def readMoment (s : List Char) : Option (Except OutOfRange Value) :=
  match dayAlone.run' s, dayAndClock.run' s with
  | some d, _ => some (Value.day <$> checkedDay d)
  | none, some (d, t) => some do
    let _ ← t.offset.mapM checkedOffset
    pure (.moment (← checkedDay d) (← checkedClock t))
  | none, none => none

end Docset.Yaml
