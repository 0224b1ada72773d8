/-
  White space, and trimming a text by a class of characters.

  `isBlank` is the white space of Unicode texts: the separators that words stand between, in ASCII
  and beyond, with the four information separators U+001C to U+001F.  It is a larger class than
  `Char.isWhitespace`, which knows ASCII only.

  Trimming is stated on `List Char` for any class: `trimBy` drops the longest run of the class at
  each end and leaves the middle alone, so what is left starts and ends outside the class.
-/
namespace Docset.Text

/-! ## The class -/

/-- White space: line and paragraph ends, tabs, information separators, and every Unicode space. -/
def isBlank (c : Char) : Bool :=
  let n := c.toNat
  (0x09 ≤ n && n ≤ 0x0D) || (0x1C ≤ n && n ≤ 0x20) || n == 0x85 || n == 0xA0 || n == 0x1680
    || (0x2000 ≤ n && n ≤ 0x200A) || n == 0x2028 || n == 0x2029 || n == 0x202F || n == 0x205F
    || n == 0x3000

/-! ## Trimming -/

/-- The list without its longest final run of characters in `p`. -/
def trimEnd (p : Char → Bool) (s : List Char) : List Char :=
  (s.reverse.dropWhile p).reverse

/-- The list without its longest initial and final runs of characters in `p`. -/
def trimBy (p : Char → Bool) (s : List Char) : List Char :=
  trimEnd p (s.dropWhile p)

/-- The text without white space at its ends. -/
def trim (s : String) : String :=
  String.ofList (trimBy isBlank s.toList)

/-- The text without copies of `c` at its ends. -/
def trimChar (c : Char) (s : String) : String :=
  String.ofList (trimBy (· == c) s.toList)

/-- A text of white space alone, the empty text included. -/
def isAllBlank (s : String) : Bool :=
  s.toList.all isBlank

example : trim " \t a b \n" = "a b" := by decide
example : trimChar '\\' "\\\\A\\B\\" = "A\\B" := by decide

end Docset.Text
