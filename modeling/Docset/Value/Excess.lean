/-
  Numbers beyond what can be read or written.

  Whole numbers have no bound of their own, but one is read from decimal digits, and written with
  them, only if there are 4300 at most.  Real numbers end at the greatest binary64 number, and
  characters at U+10FFFF.
-/
namespace Docset

/-- The most decimal digits of a whole number. -/
def maxDigits : Nat := 4300

/-- The greatest number of a character. -/
def maxCharacter : Nat := 0x10FFFF

/-- The greatest number that can be asked for as a character's at all. -/
def maxCharacterAsked : Nat := 0x7FFFFFFF

/-- A number beyond a limit. -/
inductive Excess
  /-- A whole number to be read from this many digits. -/
  | read (digits : Nat)
  /-- A whole number to be written. -/
  | written
  /-- A whole number to be taken for a real one. -/
  | real
  /-- The number of a character. -/
  | character (n : Nat)
  deriving DecidableEq, Repr

namespace Excess

/-- Whether it overflows a machine number, and not just a limit that is set. -/
def isOverflow : Excess → Bool
  | read _ => false
  | written => false
  | real => true
  | character n => maxCharacterAsked < n

/-- What is told about it. -/
def message : Excess → String
  | read digits =>
    "Exceeds the limit (" ++ toString maxDigits ++ " digits) for integer string conversion: value has "
      ++ toString digits ++ " digits; use sys.set_int_max_str_digits() to increase the limit"
  | written =>
    "Exceeds the limit (" ++ toString maxDigits ++ " digits) for integer string conversion; "
      ++ "use sys.set_int_max_str_digits() to increase the limit"
  | real => "int too large to convert to float"
  | character n =>
    if maxCharacterAsked < n then "Python int too large to convert to C int"
    else "chr() arg not in range(0x110000)"

end Excess

/-- Whether a whole number can be written. -/
def isWritable (n : Int) : Bool := n.natAbs < Nat.pow 10 maxDigits

end Docset
