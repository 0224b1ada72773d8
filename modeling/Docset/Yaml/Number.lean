/-
  Numbers of a document.

  A number may have a sign, and underscores among its digits.  A whole number is written to base ten,
  to base eight after `0`, to base two after `0b` or to base sixteen after `0x`; a real number has a
  point.  Both may be written to base sixty, as times are: the parts after the first have two digits
  at most and stay below sixty, and a real number has its point in the last part.

  A text may have the form of a number and yet stand for none: if its base has no digits, if it has too
  many of them, or if it needs a power of sixty that is no real number (`NumberError`).
-/
import Docset.Text.Fields
import Docset.Yaml.Quoted

namespace Docset.Yaml

open Docset.Text

/-! ## Digits -/

/-- A digit, or a mark between digits. -/
def isDigitOrMark (c : Char) : Bool := c.isDigit || c == '_'

/-- A text that is a digit and then digits and marks. -/
def isNumeral (s : List Char) : Bool := s.head?.any Char.isDigit && s.all isDigitOrMark

/-- The text without marks between digits. -/
def withoutMarks (s : List Char) : List Char := s.filter (· != '_')

/-- The sign before a number, which is -1 or 1, and the number. -/
def splitSign (s : List Char) : Int × List Char :=
  match s with
  | '-' :: rest => (-1, rest)
  | '+' :: rest => (1, rest)
  | _ => (1, s)

/-- The whole number that digits and marks stand for; no digits stand for zero. -/
def readNumeral (s : List Char) : Nat := (readDigits 10 (withoutMarks s)).getD 0

/-- A part to base sixty: one digit, or two of which the first is five at most. -/
def isSixtieth (s : List Char) : Bool :=
  match s with
  | [c] => c.isDigit
  | [c, d] => '0' ≤ c && c ≤ '5' && d.isDigit
  | _ => false

/-! ## Faults -/

/-- Why a text in the form of a number stands for none. -/
inductive NumberError
  /-- A base without digits to read. -/
  | noDigits (base : Nat)
  /-- A number beyond a limit. -/
  | beyond (e : Excess)
  deriving DecidableEq, Repr

/-- Whether it overflows a machine number. -/
def NumberError.isOverflow : NumberError → Bool
  | noDigits _ => false
  | beyond e => e.isOverflow

/-- What is told about it. -/
def NumberError.message : NumberError → String
  | noDigits base => "invalid literal for int() with base " ++ toString base ++ ": ''"
  | beyond e => e.message

/-! ## Whole numbers -/

/-- The digits to a base behind its mark, with marks between them. -/
def basedDigits (base : Nat) (s : List Char) : Option (Except NumberError Nat) :=
  if !s.isEmpty && s.all (fun c => c == '_' || (digitValue base c).isSome) then
    match withoutMarks s with
    | [] => some (.error (.noDigits base))
    | digits => (readDigits base digits).map .ok
  else none

/-- The whole number that the parts to base sixty stand for; only the first may be long. -/
def wholeSixtieths (first : List Char) (parts : List (List Char)) : Except NumberError Nat :=
  let size := (withoutMarks first).length
  if maxDigits < size then .error (.beyond (.read size))
  else .ok (parts.foldl (fun n part => n * 60 + readNumeral part) (readNumeral first))

/-- The whole number without a sign that a text is; none if it is not one. -/
def unsignedWhole (s : List Char) : Option (Except NumberError Nat) :=
  match s with
  | '0' :: 'b' :: rest => basedDigits 2 rest
  | '0' :: 'x' :: rest => basedDigits 16 rest
  | ['0'] => some (.ok 0)
  | '0' :: rest =>
    if rest.all fun c => c == '_' || (digitValue 8 c).isSome then
      (readDigits 8 (withoutMarks s)).map .ok
    else none
  | _ =>
    match fields ':' s with
    | first :: parts =>
      if isNumeral first && parts.all isSixtieth then some (wholeSixtieths first parts) else none
    | [] => none

/-- The whole number that a text is. -/
def readWhole (s : List Char) : Option (Except NumberError Int) :=
  let (sign, rest) := splitSign s
  (unsignedWhole rest).map fun r => r.map fun n => sign * Int.ofNat n

/-! ## Real numbers -/

/-- The greatest power of ten that has to be looked at: numbers beyond are infinite or zero. -/
def maxPower : Nat := 400

/-- The real number nearest to `digits · 10^exponent`. -/
def nearestReal (digits : Nat) (exponent : Int) : Float :=
  let size := (Nat.toDigits 10 digits).length + exponent
  if digits = 0 ∨ size < -maxPower then 0.0
  else if maxPower < size then Float.ofScientific 1 false (10 * maxPower)
  else if exponent < 0 then Float.ofScientific digits true exponent.natAbs
  else Float.ofScientific digits false exponent.natAbs

/-- The exponent at the end of a number: none, or a letter, a sign and digits. -/
def readExponent (s : List Char) : Option Int :=
  match s with
  | [] => some 0
  | e :: mark :: digits =>
    if (e == 'e' || e == 'E') && (mark == '+' || mark == '-') && !digits.isEmpty
        && digits.all Char.isDigit then
      (readDigits 10 digits).map fun n => (splitSign [mark]).1 * Int.ofNat n
    else none
  | _ => none

/-- The real number with a point in it; it starts with a digit or, without a sign, with the point and
a digit. -/
def pointed (whole rest : List Char) (isSigned : Bool) : Option Float :=
  let fraction := rest.takeWhile isDigitOrMark
  let startsWell := if whole.isEmpty then !isSigned && isNumeral fraction else isNumeral whole
  if startsWell then do
    let exponent ← readExponent (rest.drop fraction.length)
    let places := (withoutMarks fraction).length
    some (nearestReal (readNumeral (whole ++ fraction)) (exponent - places))
  else none

/-- How many powers of sixty are real numbers. -/
def powersOfSixty : Nat := 174

/-- The real number to base sixty: the last part has the point, and the sum is built from it upward. -/
def realSixtieths (parts : List (List Char)) : Option (Except NumberError Float) :=
  match parts.reverse with
  | last :: second :: rest =>
    let whole := last.takeWhile (· != '.')
    let fraction := last.drop (whole.length + 1)
    let middle := (second :: rest).dropLast
    let first := (second :: rest).getLast?.getD []
    if last.contains '.' && fraction.all isDigitOrMark && (whole :: middle).all isSixtieth
        && isNumeral first then
      let lowest := nearestReal (readNumeral (whole ++ fraction)) (-(withoutMarks fraction).length)
      let upward := (second :: rest).foldl (fun (sum, power) part =>
        (sum + nearestReal (readNumeral part) 0 * nearestReal (Nat.pow 60 power) 0, power + 1))
        (0.0 + lowest, 1)
      some (if powersOfSixty < parts.length then .error (.beyond .real) else .ok upward.1)
    else none
  | _ => none

/-- The real number that a text is. -/
def readReal (s : List Char) : Option (Except NumberError Float) :=
  let (sign, rest) := splitSign s
  let isSigned := rest.length < s.length
  let unsigned :=
    if [".inf", ".Inf", ".INF"].contains (String.ofList rest) then
      some (.ok (nearestReal 1 (maxPower + 1)))
    else if [".nan", ".NaN", ".NAN"].contains (String.ofList s) then some (.ok (0.0 / 0.0))
    else if rest.contains ':' then realSixtieths (fields ':' rest)
    else
      let whole := rest.takeWhile (· != '.')
      if rest.contains '.' then (pointed whole (rest.drop (whole.length + 1)) isSigned).map .ok else none
  unsigned.map fun r => r.map fun x => if sign < 0 then -x else x

end Docset.Yaml
