/-
  Quoted texts of a document.

  Between single quotes everything stands for itself, and a quote is written twice.  Between double
  quotes a backslash starts an escape.  In both, a line end with the white space around it counts as
  one space, and each further line end as itself; after an escaped line end nothing is left of it.
-/
import Docset.Yaml.Cursor

namespace Docset.Yaml

/-! ## White space -/

/-- The further line ends after one, with the white space before each; a line that parts documents
may not follow. -/
def furtherBreaks : Nat → Cursor → Except Malformed (List Char × Cursor)
  | 0, _ => .error .unclosedQuote
  | bound + 1, c => do
    if c.atDocumentMark then throw .unclosedQuote
    let c := c.skipWhile fun ch => ch == ' ' || ch == '\t'
    match c.lineBreak? with
    | some (ch, c) =>
      let (more, c) ← furtherBreaks bound c
      pure (ch :: more, c)
    | none => pure ([], c)

/-- What a run of white space stands for. -/
def quotedGap (bound : Nat) (c : Cursor) : Except Malformed (List Char × Cursor) := do
  let blanks := c.rest.takeWhile fun ch => ch == ' ' || ch == '\t'
  let c := c.skip blanks.length
  match c.lineBreak? with
  | none => pure (blanks, c)
  | some (ch, c) =>
    let (more, c) ← furtherBreaks bound c
    if ch != '\n' then pure (ch :: more, c)
    else if more.isEmpty then pure ([' '], c)
    else pure (more, c)

/-! ## Escapes -/

/-- The character that a letter after a backslash stands for. -/
def shortEscape (c : Char) : Option Char :=
  match c with
  | '0' => some '\x00'
  | 'a' => some '\x07'
  | 'b' => some '\x08'
  | 't' => some '\t'
  | '\t' => some '\t'
  | 'n' => some '\n'
  | 'v' => some '\x0b'
  | 'f' => some '\x0c'
  | 'r' => some '\r'
  | 'e' => some '\x1b'
  | ' ' => some ' '
  | '"' => some '"'
  | '\\' => some '\\'
  | '/' => some '/'
  | 'N' => some '\u0085'
  | '_' => some '\u00a0'
  | 'L' => some '\u2028'
  | 'P' => some '\u2029'
  | _ => none

/-- How many hexadecimal digits follow a letter after a backslash. -/
def escapeWidth (c : Char) : Option Nat :=
  match c with
  | 'x' => some 2
  | 'u' => some 4
  | 'U' => some 8
  | _ => none

/-- The value of a digit in a base up to sixteen. -/
def digitValue (base : Nat) (c : Char) : Option Nat :=
  let value :=
    if c.isDigit then some (c.toNat - '0'.toNat)
    else if 'a' ≤ c ∧ c ≤ 'f' then some (c.toNat - 'a'.toNat + 10)
    else if 'A' ≤ c ∧ c ≤ 'F' then some (c.toNat - 'A'.toNat + 10)
    else none
  value.filter (· < base)

/-- The number that digits stand for. -/
def readDigits (base : Nat) (s : List Char) : Option Nat :=
  s.foldl (fun n c => do pure ((← n) * base + (← digitValue base c))) (some 0)

/-- The character with a number; U+FFFD for a number that is only half of one. -/
def characterOf (n : Nat) : Except Malformed Char :=
  if maxCharacter < n then .error (.beyond (.character n))
  else if n.isValidChar then .ok (Char.ofNat n)
  else .ok '\uFFFD'

/-- What the escape after a backslash stands for. -/
def escaped (bound : Nat) (c : Cursor) : Except Malformed (List Char × Cursor) := do
  match c.peek with
  | none => throw .badEscape
  | some ch =>
    match shortEscape ch, escapeWidth ch with
    | some meant, _ => pure ([meant], c.next)
    | none, some width =>
      let digits := c.next.rest.take width
      match (if digits.length = width then readDigits 16 digits else none) with
      | some n => do pure ([← characterOf n], c.next.skip width)
      | none => throw .badEscape
    | none, none =>
      match c.lineBreak? with
      | some (_, c) => furtherBreaks bound c
      | none => throw .badEscape

/-! ## Whole texts -/

/-- What stands before the closing quote, and the place after it. -/
def quotedRest (mark : Char) : Nat → Cursor → Except Malformed (List Char × Cursor)
  | 0, _ => .error .unclosedQuote
  | bound + 1, c => do
    match c.peek with
    | none => throw .unclosedQuote
    | some ch =>
      if ch == mark then
        if mark == '\'' && c.peekAt 1 == some '\'' then
          let (more, c) ← quotedRest mark bound (c.skip 2)
          pure ('\'' :: more, c)
        else pure ([], c.next)
      else
        let (here, c) ←
          if isGap ch then quotedGap bound c
          else if ch == '\\' && mark == '"' then escaped bound c.next
          else pure ([ch], c.next)
        let (more, c) ← quotedRest mark bound c
        pure (here ++ more, c)

/-- The quoted text that starts at the place. -/
def quotedText (mark : Char) (c : Cursor) : Except Malformed (List Char × Cursor) :=
  quotedRest mark (c.rest.length + 1) c.next

end Docset.Yaml
