/-
  Line ends.

  A text may end its lines with a carriage return, a line feed, or both together; `unifyBreaks`
  writes every line end as one line feed.
-/
namespace Docset.Text

/-- The list with every line end written as one line feed. -/
def unifyBreaksList : List Char → List Char
  | [] => []
  | '\r' :: '\n' :: rest => '\n' :: unifyBreaksList rest
  | '\r' :: rest => '\n' :: unifyBreaksList rest
  | c :: rest => c :: unifyBreaksList rest

/-- The text with every line end written as one line feed. -/
def unifyBreaks (s : String) : String :=
  String.ofList (unifyBreaksList s.toList)

example : unifyBreaks "a\r\nb\rc\n" = "a\nb\nc\n" := by decide

end Docset.Text
