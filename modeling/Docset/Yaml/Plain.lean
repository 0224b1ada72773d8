/-
  Plain texts of a document.

  A plain text has no quotes.  It ends before `:` at the end of a word, before ` #`, and inside
  brackets before `,`, `?` and the brackets themselves.  It goes on over line ends as long as the lines
  are indented deep enough, where a line end counts as one space and each further one as itself.
-/
import Docset.Yaml.Cursor

namespace Docset.Yaml

/-- The characters that part items inside brackets. -/
def isFlowMark (c : Char) : Bool :=
  c == ',' || c == '[' || c == ']' || c == '\x7b' || c == '\x7d'

/-- Whether a plain text may start with the character, followed by another. -/
def startsPlain (inFlow : Bool) (c : Char) (after : Option Char) : Bool :=
  !(isGap c || isFlowMark c
    || "-?:#&*!|>'\"%@".toList.contains c || c.toNat == 0x60)
  || (!endsWord after && (c == '-' || (!inFlow && (c == '?' || c == ':'))))

/-- The plain text up to the next gap or end. -/
def plainRun (inFlow : Bool) : List Char → List Char
  | [] => []
  | c :: rest =>
    if isGap c || (inFlow && (isFlowMark c || c == '?'))
        || (c == ':' && (endsWord rest.head? || (inFlow && rest.head?.any isFlowMark))) then []
    else c :: plainRun inFlow rest

/-- The line ends that follow one, with spaces between them; none is left before a line that parts
documents. -/
def plainBreaks : Nat → Cursor → Option (List Char) × Cursor
  | 0, c => (none, c)
  | bound + 1, c =>
    if c.atDocumentMark then (none, c)
    else
      let c := c.skipWhile (· == ' ')
      match c.lineBreak? with
      | some (ch, c) =>
        let (more, c) := plainBreaks bound c
        (more.map (ch :: ·), c)
      | none => (some [], c)

/-- What the gap after a run stands for, the place after it, and whether a line ended in it. -/
def plainGap (bound : Nat) (c : Cursor) : List Char × Cursor × Bool :=
  let blanks := c.rest.takeWhile (· == ' ')
  let c := c.skip blanks.length
  match c.lineBreak? with
  | none => (blanks, c, false)
  | some (ch, c) =>
    let (further, c) := plainBreaks bound c
    match further with
    | none => ([], c, true)
    | some more =>
      (if ch != '\n' then ch :: more else if more.isEmpty then [' '] else more, c, true)

/-- The plain text at the place, the place after it, and whether it was followed by a line end.
`indent` is the least column of the lines after the first. -/
def plainRest (inFlow : Bool) (indent : Int) : Nat → Cursor → List Char × Cursor × Bool
  | 0, c => ([], c, false)
  | bound + 1, c =>
    let run := plainRun inFlow c.rest
    let (gap, d, broken) := plainGap bound (c.skip run.length)
    if gap.isEmpty || d.peek == some '#' || (!inFlow && (d.column : Int) < indent) then (run, d, broken)
    else if (plainRun inFlow d.rest).isEmpty then (run, d, broken)
    else
      let (more, d, broken) := plainRest inFlow indent bound d
      (run ++ gap ++ more, d, broken)

/-- The plain text that starts at the place. -/
def plainText (inFlow : Bool) (indent : Int) (c : Cursor) : List Char × Cursor × Bool :=
  plainRest inFlow indent (c.rest.length + 1) c

end Docset.Yaml
