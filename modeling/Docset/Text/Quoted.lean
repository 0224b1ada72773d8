/-
  Quoted texts: a text written on one line of printable characters between quotes.

  A text is quoted with `'`, or with `"` if it holds `'` and no `"`.  The quote in use and `\` are
  escaped with `\`; line feed, carriage return and tab have letters of their own; any other
  character that is not printable is written by its code point, in two, four or eight lower-case
  hexadecimal digits, the fewest that hold it.  Everything else stands for itself.

  A string of bytes is quoted as its characters would be, with `b` in front; a byte beyond ASCII is
  never printed as itself.
-/
import Docset.Text.Printable

namespace Docset.Text

/-! ## One character -/

/-- The `width` lower-case hexadecimal digits of `n`, the high ones first. -/
def hexDigits (n : Nat) : (width : Nat) → List Char
  | 0 => []
  | width + 1 => Nat.digitChar (n / Nat.pow 16 width % 16) :: hexDigits n width

/-- The code point of a character that is not printed as itself. -/
def codeEscape (c : Char) : List Char :=
  let n := c.toNat
  if n ≤ 0xFF then '\\' :: 'x' :: hexDigits n 2
  else if n ≤ 0xFFFF then '\\' :: 'u' :: hexDigits n 4
  else '\\' :: 'U' :: hexDigits n 8

/-- One character of a text quoted with `mark`. -/
def escape (mark c : Char) : List Char :=
  if c = mark ∨ c = '\\' then ['\\', c]
  else if c = '\n' then ['\\', 'n']
  else if c = '\r' then ['\\', 'r']
  else if c = '\t' then ['\\', 't']
  else if isPrintable c then [c]
  else codeEscape c

/-! ## Whole texts -/

/-- The quote of a text: `"` for a text that holds `'` and no `"`, otherwise `'`. -/
def quoteMark (s : List Char) : Char :=
  if '\'' ∈ s ∧ '"' ∉ s then '"' else '\''

/-- The text between quotes, on one line of printable characters. -/
def quoted (s : String) : String :=
  let mark := quoteMark s.toList
  String.ofList (mark :: s.toList.flatMap (escape mark) ++ [mark])

example : quoted "\\App" = "'\\\\App'" := by decide
example : quoted "it's" = "\"it's\"" := by decide
example : quoted "a'b\"c\n" = "'a\\'b\"c\\n'" := by decide

/-! ## Bytes -/

/-- One byte of a string of bytes quoted with `mark`. -/
def escapeByte (mark : Char) (b : UInt8) : List Char :=
  let c := Char.ofNat b.toNat
  if b.toNat < 0x80 then escape mark c else codeEscape c

/-- The bytes between quotes. -/
def quotedBytes (content : List UInt8) : String :=
  let mark := quoteMark (content.map fun b => Char.ofNat b.toNat)
  String.ofList ('b' :: mark :: content.flatMap (escapeByte mark) ++ [mark])

example : quotedBytes [0x61, 0x27, 0x0A, 0xE9] = "b\"a'\\n\\xe9\"" := by decide

end Docset.Text
