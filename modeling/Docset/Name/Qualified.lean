/-
  Fully qualified names.

  A qualified name is `\`, then names joined by `\`, then perhaps `::` and a member: a name, with
  `$` before it for a variable or `()` after it for a call, or both.  One line feed may end the text.
  A name starts with a letter, `_` or any character from U+0080 to U+FFFF, and goes on with those
  and the digits.

  `isQualified` decides the form by cutting the text at the characters that no name holds, so each
  part is looked at once; `QualifiedName` is a text together with that fact.
-/
import Docset.Name.Path
import Docset.Text.Quoted

namespace Docset

open Docset.Text

/-! ## Faults -/

/-- Why a text does not name what it should. -/
inductive NameError
  /-- The text is no qualified name. -/
  | malformed (text : String)
  /-- The namespace with this path has neither a name nor a parent. -/
  | noParent (path : String)
  deriving DecidableEq, Repr

/-- What is told about the fault. -/
def NameError.message : NameError → String
  | .malformed text => "\"" ++ text ++ "\" is not a valid Fqsen."
  | .noParent path => "\"" ++ path ++ "\" has no parent namespace."

/-! ## Names -/

/-- What a name may start with. -/
def isNameStart (c : Char) : Bool :=
  c.isAlpha || c == '_' || (0x80 ≤ c.toNat && c.toNat ≤ 0xFFFF)

/-- What a name may go on with. -/
def isNamePart (c : Char) : Bool :=
  isNameStart c || c.isDigit

/-- A single name. -/
def isIdentifier : List Char → Bool
  | [] => false
  | c :: rest => isNameStart c && rest.all isNamePart

/-! ## The two halves of a qualified name -/

/-- A rooted path: `\` alone, or `\` and names joined by `\`. -/
def isRootedPath : List Char → Bool
  | [] => false
  | c :: rest => c == Path.separator && (rest.isEmpty || (fields Path.separator rest).all isIdentifier)

/-- The rest of a qualified name after its path: nothing, or `::` and a member. -/
def isMemberPart : List Char → Bool
  | [] => true
  | ':' :: ':' :: '$' :: member => isIdentifier (Path.dropCall member)
  | ':' :: ':' :: member => isIdentifier (Path.dropCall member)
  | _ => false

/-- A qualified name without a final line feed. -/
def isBareQualified (s : List Char) : Bool :=
  isRootedPath (s.takeWhile (· != ':')) && isMemberPart (s.dropWhile (· != ':'))

/-- A qualified name, with or without one final line feed. -/
def isQualified (text : String) : Bool :=
  let s := text.toList
  isBareQualified s || (s.getLast? == some '\n' && isBareQualified s.dropLast)

/-! ## Qualified names -/

/-- A text known to be a qualified name. -/
structure QualifiedName where
  /-- The name as it was written. -/
  text : String
  /-- It has the form of a qualified name. -/
  wellFormed : isQualified text = true
  deriving DecidableEq

namespace QualifiedName

/-- Reads a qualified name. -/
def parse (text : String) : Except NameError QualifiedName :=
  if h : isQualified text = true then .ok ⟨text, h⟩ else .error (.malformed text)

/-- Its last name; empty for the root. -/
def name (q : QualifiedName) : String :=
  Path.localName q.text

/-- The name as a term. -/
def describe (q : QualifiedName) : String :=
  "Fqsen(" ++ quoted q.text ++ ")"

end QualifiedName

example : isQualified "\\" ∧ isQualified "\\App\\User::save()" ∧ isQualified "\\::$x\n" := by decide
example : ¬ isQualified "App" ∧ ¬ isQualified "\\A\\" ∧ ¬ isQualified "\\1A" := by decide

end Docset
