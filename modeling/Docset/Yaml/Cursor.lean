/-
  Reading positions in a document, and what may be wrong with one.

  A cursor holds the characters that are still to be read and where the first of them stands.  A line
  ends at a line feed, a carriage return, both together, or one of three rarer characters; a byte order
  mark takes no column.
-/
import Docset.Value.Excess

namespace Docset.Yaml

/-! ## Faults -/

/-- Why a text is no document. -/
inductive Malformed
  /-- A character that no document holds. -/
  | unprintable (c : Char)
  /-- A character that starts no token here. -/
  | noToken
  /-- A quoted text without its second quote. -/
  | unclosedQuote
  /-- An escape that is written wrongly. -/
  | badEscape
  /-- A number beyond a limit, in an escape or a directive. -/
  | beyond (e : Excess)
  /-- A key that is not followed by `:` on its line. -/
  | danglingKey
  /-- An entry, a key or a value where none may start. -/
  | misplaced
  /-- A directive that cannot be read. -/
  | badDirective
  /-- Tokens that make no node. -/
  | noNode
  /-- Lists and tables in each other beyond the greatest depth. -/
  | tooDeep
  /-- Tokens that stop short of the end of the text. -/
  | unfinished
  /-- More than one document. -/
  | manyDocuments
  /-- A value that stands for nothing, or a key that cannot be one. -/
  | noValue
  deriving DecidableEq, Repr

/-! ## Characters -/

/-- A character that ends a line. -/
def isBreak (c : Char) : Bool :=
  c == '\n' || c == '\r' || c == '\u0085' || c == '\u2028' || c == '\u2029'

/-- A character that parts words. -/
def isGap (c : Char) : Bool := c == ' ' || c == '\t' || isBreak c

/-- The end of a line, or of the text. -/
def endsLine (c : Option Char) : Bool := c.all isBreak

/-- The end of a word, or of the text. -/
def endsWord (c : Option Char) : Bool := c.all isGap

/-- Whether a document may hold the character. -/
def isAllowed (c : Char) : Bool :=
  let n := c.toNat
  n == 0x9 || n == 0xA || n == 0xD || (0x20 ≤ n && n ≤ 0x7E) || n == 0x85
    || (0xA0 ≤ n && n ≤ 0xD7FF) || (0xE000 ≤ n && n ≤ 0xFFFD) || 0x10000 ≤ n

/-! ## Cursors -/

/-- A place in a text. -/
structure Cursor where
  /-- What is still to be read. -/
  rest : List Char
  /-- How many characters were read. -/
  index : Nat
  /-- How many lines were read. -/
  line : Nat
  /-- How far from the start of its line the place is. -/
  column : Nat
  deriving Repr

namespace Cursor

/-- The start of a text. -/
def start (s : List Char) : Cursor := ⟨s, 0, 0, 0⟩

/-- The next character. -/
def peek (c : Cursor) : Option Char := c.rest.head?

/-- The character `n` places on. -/
def peekAt (c : Cursor) (n : Nat) : Option Char := c.rest[n]?

/-- The place after the next character. -/
def next (c : Cursor) : Cursor :=
  match c.rest with
  | [] => c
  | ch :: rest =>
    if isBreak ch && !(ch == '\r' && rest.head? == some '\n') then ⟨rest, c.index + 1, c.line + 1, 0⟩
    else if ch == '\uFEFF' then ⟨rest, c.index + 1, c.line, c.column⟩
    else ⟨rest, c.index + 1, c.line, c.column + 1⟩

/-- The place `n` characters on. -/
def skip (c : Cursor) : Nat → Cursor
  | 0 => c
  | n + 1 => c.next.skip n

/-- The place after the longest run of characters in `p`. -/
def skipWhile (c : Cursor) (p : Char → Bool) : Cursor := c.skip (c.rest.takeWhile p).length

/-- The line end at the place, as one character, and the place after it. -/
def lineBreak? (c : Cursor) : Option (Char × Cursor) :=
  match c.rest with
  | '\r' :: '\n' :: _ => some ('\n', c.skip 2)
  | ch :: _ =>
    if ch == '\u2028' || ch == '\u2029' then some (ch, c.next)
    else if isBreak ch then some ('\n', c.next)
    else none
  | [] => none

/-- Whether the word at the place is three times `ch`. -/
def atMark (c : Cursor) (ch : Char) : Bool :=
  c.rest.take 3 == [ch, ch, ch] && endsWord (c.peekAt 3)

/-- Whether a line that starts here parts documents. -/
def atDocumentMark (c : Cursor) : Bool := c.atMark '-' || c.atMark '.'

end Cursor

end Docset.Yaml
