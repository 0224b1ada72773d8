/-
  Directives: lines at the head of a document that start with a percent sign.

  `YAML` names the version, and `TAG` gives a handle to a family of tags; neither may be followed by
  anything but a comment.  What other directives say does not matter.
-/
import Docset.Yaml.Quoted
import Docset.Yaml.Token

namespace Docset.Yaml.Directive

/-! ## Words -/

/-- A character of the name of a directive. -/
def isNameChar (c : Char) : Bool := c.isAlphanum || c == '-' || c == '_'

/-- Whether a directive's word ends at the place. -/
def wordEnds (c : Cursor) : Bool := c.peek.all fun ch => ch == ' ' || isBreak ch

/-! ## Versions -/

/-- A number of digits, and the place after it. -/
def number (c : Cursor) : Except Malformed (Nat × Cursor) := do
  let digits := c.rest.takeWhile Char.isDigit
  if maxDigits < digits.length then throw (.beyond (.read digits.length))
  match digits, readDigits 10 digits with
  | _ :: _, some n => pure (n, c.skip digits.length)
  | _, _ => throw .badDirective

/-- The number of the version, of which the first part counts, and the place after it. -/
def version (c : Cursor) : Except Malformed (Nat × Cursor) := do
  let (major, c) ← number c
  if c.peek ≠ some '.' then throw .badDirective
  let (_, c) ← number c.next
  if !wordEnds c then throw .badDirective
  pure (major, c)

/-! ## Handles -/

/-- The handle of a family of tags, and the place after it: an exclamation mark alone, or two with a
name or nothing between them. -/
def handle (c : Cursor) : Except Malformed (String × Cursor) := do
  if c.peek ≠ some '!' then throw .badDirective
  let name := c.next.rest.takeWhile isNameChar
  let after := c.next.skip name.length
  if name.isEmpty && after.peek == some ' ' then pure ("!", after)
  else if after.peek == some '!' && after.next.peek == some ' ' then
    pure ("!" ++ String.ofList name ++ "!", after.next)
  else throw .badDirective

/-- A character of the name of a tag. -/
def isTagChar (c : Char) : Bool := c.isAlphanum || "-;/?:@&=+$,_.!~*'()[]%".toList.contains c

/-- The bytes that two digits after a percent sign each stand for, as long as one follows another, and
what is left. -/
def percentBytes : List Char → Except Malformed (List UInt8 × List Char)
  | '%' :: a :: b :: rest => do
    match digitValue 16 a, digitValue 16 b with
    | some high, some low =>
      let (more, rest) ← percentBytes rest
      pure ((high * 16 + low).toUInt8 :: more, rest)
    | _, _ => throw .badDirective
  | '%' :: _ => .error .badDirective
  | rest => .ok ([], rest)

/-- Whether the name of a tag is written well: each run of percent signs stands for a text. -/
def isTagName : Nat → List Char → Bool
  | 0, _ => true
  | bound + 1, s =>
    match s.dropWhile (· != '%') with
    | [] => true
    | rest =>
      match percentBytes rest with
      | .ok (bytes, rest) => (String.fromUTF8? ⟨bytes.toArray⟩).isSome && isTagName bound rest
      | .error _ => false

/-- The place after the name of a family of tags. -/
def passTagName (c : Cursor) : Except Malformed Cursor := do
  let name := c.rest.takeWhile isTagChar
  let c := c.skip name.length
  if name.isEmpty || !isTagName name.length name || !wordEnds c then throw .badDirective
  pure c

/-! ## Lines -/

/-- What the directive with a name says, and the place after it. -/
def valueOf (name : String) (c : Cursor) : Except Malformed (Token × Cursor) := do
  if name = "YAML" then
    let (major, c) ← version (c.skipWhile (· == ' '))
    pure (.version major, c)
  else if name = "TAG" then
    let (family, c) ← handle (c.skipWhile (· == ' '))
    pure (.handle family, ← passTagName (c.skipWhile (· == ' ')))
  else pure (.directive, c.skipWhile fun ch => !isBreak ch)

/-- The directive behind a percent sign, and the place after its line. -/
def read (c : Cursor) : Except Malformed (Token × Cursor) := do
  let name := c.rest.takeWhile isNameChar
  let c := c.skip name.length
  if name.isEmpty || !wordEnds c then throw .badDirective
  let (t, c) ← valueOf (String.ofList name) c
  let c := c.skipWhile (· == ' ')
  let c := if c.peek == some '#' then c.skipWhile fun ch => !isBreak ch else c
  if !endsLine c.peek then throw .badDirective
  match c.lineBreak? with
  | some (_, c) => pure (t, c)
  | none => pure (t, c)

end Docset.Yaml.Directive
