/-
  Tokens: the words and marks of a document.

  Lists and tables are written in two ways.  Between brackets, their items are parted by commas; as
  blocks, they are told by how far they are indented, and a block is a bracket that nobody wrote: it
  opens with its first entry or key and closes (`blockEnd`) at the first line that is indented less.
-/
namespace Docset.Yaml

/-- A token of a document. -/
inductive Token
  /-- The directive that names the version, by the first number of it. -/
  | version (major : Nat)
  /-- The directive that gives a handle to a family of tags. -/
  | handle (name : String)
  /-- Any other directive. -/
  | directive
  | documentStart
  | documentEnd
  | blockList
  | blockTable
  | blockEnd
  | openList
  | closeList
  | openTable
  | closeTable
  /-- The dash before an entry of a block. -/
  | entry
  | comma
  | key
  | value
  /-- A text, plain or quoted. -/
  | text (content : String) (isPlain : Bool)
  /-- The end of the text. -/
  | finish
  deriving DecidableEq, Repr, Inhabited

namespace Token

/-- Whether the token belongs to the head of a document. -/
def isDirective : Token → Bool
  | version _ => true
  | handle _ => true
  | directive => true
  | _ => false

end Token

end Docset.Yaml
