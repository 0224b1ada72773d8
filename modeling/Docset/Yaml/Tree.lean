/-
  The tree of a document: which token is an item of which list, and a key of which table.

  Every list and every table reads its items up to its own closing token, so a tree is read from left
  to right without looking back.  Tokens that stop before the end of the text are told apart
  (`unfinished`): no token is asked for before it is needed.  Each list and each table takes one level of
  the room that its parent has left, and the first one that finds none is a fault (`tooDeep`).  What is
  left out counts as a plain text without characters: an item after whose dash, a key after whose mark,
  or a value after whose colon nothing follows.
-/
import Docset.Yaml.Token.Lexer

namespace Docset.Yaml

/-- A part of a document, before its plain texts are read as values. -/
inductive Tree
  /-- A text, plain or quoted. -/
  | text (content : String) (isPlain : Bool)
  | list (items : List Tree)
  | table (rows : List (Tree × Tree))
  deriving Repr, Inhabited

namespace Tree

/-- What stands where something was left out. -/
def blank : Tree := .text "" true

/-! ## Ends of parts -/

/-- The tokens that show that a part of a block was left out. -/
def endsInBlock (t : Token) : Bool := t matches .key | .value | .blockEnd

/-- The tokens that show that an item of a block was left out. -/
def endsItem (t : Token) : Bool := t matches .entry | .blockEnd

/-- The tokens that show that an item was left out of a list that has no block of its own. -/
def endsLooseItem (t : Token) : Bool := t == .entry || endsInBlock t

/-- The tokens that show that a part between brackets was left out. -/
def endsInFlow (close t : Token) : Bool := t == .comma || t == close

/-! ## Parts -/

/-- The room inside one more list or table. -/
def deeper : Nat → Except Malformed Nat
  | 0 => .error .tooDeep
  | room + 1 => .ok room

mutual

/-- One part.  Behind a key or a colon of a block, a list may stand at the indentation of the block
itself (`loose`), so it has no block of its own. -/
def read (loose : Bool) (room : Nat) : Nat → List Token → Except Malformed (Tree × List Token)
  | 0, _ => .error .noNode
  | bound + 1, tokens =>
    match tokens with
    | .text content isPlain :: rest => .ok (.text content isPlain, rest)
    | .openList :: rest => do
      let (items, rest) ← flowItems (← deeper room) bound rest
      pure (.list items, rest)
    | .openTable :: rest => do
      let (rows, rest) ← flowRows (← deeper room) bound rest
      pure (.table rows, rest)
    | .blockList :: rest => do
      let (items, rest) ← blockItems (← deeper room) bound rest
      pure (.list items, rest)
    | .blockTable :: rest => do
      let (rows, rest) ← blockRows (← deeper room) bound rest
      pure (.table rows, rest)
    | .entry :: _ =>
      if loose then do
        let (items, rest) ← looseItems (← deeper room) bound tokens
        pure (.list items, rest)
      else .error .noNode
    | [] => .error .unfinished
    | _ => .error .noNode
termination_by structural bound => bound

/-- One part, or nothing if it was left out. -/
def readOrBlank (ends : Token → Bool) (loose : Bool) (room : Nat) :
    Nat → List Token → Except Malformed (Tree × List Token)
  | 0, _ => .error .noNode
  | bound + 1, tokens =>
    if tokens.head?.any ends then .ok (blank, tokens) else read loose room bound tokens
termination_by structural bound => bound

/-- A key behind its mark, and its value. -/
def row (ends : Token → Bool) (loose : Bool) (room : Nat) :
    Nat → List Token → Except Malformed ((Tree × Tree) × List Token)
  | 0, _ => .error .noNode
  | bound + 1, tokens => do
    let (key, rest) ← readOrBlank (fun t => t == .value || ends t) loose room bound tokens
    match rest with
    | .value :: rest =>
      let (value, rest) ← readOrBlank ends loose room bound rest
      pure ((key, value), rest)
    | [] => throw .unfinished
    | _ => pure ((key, blank), rest)
termination_by structural bound => bound

/-- The items of a block. -/
def blockItems (room : Nat) : Nat → List Token → Except Malformed (List Tree × List Token)
  | 0, _ => .error .noNode
  | bound + 1, tokens =>
    match tokens with
    | .entry :: rest => do
      let (item, rest) ← readOrBlank endsItem false room bound rest
      let (items, rest) ← blockItems room bound rest
      pure (item :: items, rest)
    | .blockEnd :: rest => .ok ([], rest)
    | [] => .error .unfinished
    | _ => .error .noNode
termination_by structural bound => bound

/-- The items of a list that has no block of its own. -/
def looseItems (room : Nat) : Nat → List Token → Except Malformed (List Tree × List Token)
  | 0, _ => .error .noNode
  | bound + 1, tokens =>
    match tokens with
    | .entry :: rest => do
      let (item, rest) ← readOrBlank endsLooseItem false room bound rest
      let (items, rest) ← looseItems room bound rest
      pure (item :: items, rest)
    | [] => .error .unfinished
    | _ => .ok ([], tokens)
termination_by structural bound => bound

/-- The rows of a block. -/
def blockRows (room : Nat) : Nat → List Token → Except Malformed (List (Tree × Tree) × List Token)
  | 0, _ => .error .noNode
  | bound + 1, tokens =>
    match tokens with
    | .key :: rest => do
      let (first, rest) ← row endsInBlock true room bound rest
      let (rows, rest) ← blockRows room bound rest
      pure (first :: rows, rest)
    | .blockEnd :: rest => .ok ([], rest)
    | [] => .error .unfinished
    | _ => .error .noNode
termination_by structural bound => bound

/-- The items up to a closing bracket; a key makes its item a table of one row. -/
def flowItems (room : Nat) : Nat → List Token → Except Malformed (List Tree × List Token)
  | 0, _ => .error .noNode
  | bound + 1, tokens =>
    match tokens with
    | .closeList :: rest => .ok ([], rest)
    | .key :: rest => do
      let (only, rest) ← row (endsInFlow .closeList) false (← deeper room) bound rest
      let (items, rest) ← moreItems room bound rest
      pure (.table [only] :: items, rest)
    | _ => do
      let (item, rest) ← read false room bound tokens
      let (items, rest) ← moreItems room bound rest
      pure (item :: items, rest)
termination_by structural bound => bound

/-- What follows an item between brackets. -/
def moreItems (room : Nat) : Nat → List Token → Except Malformed (List Tree × List Token)
  | 0, _ => .error .noNode
  | bound + 1, tokens =>
    match tokens with
    | .closeList :: rest => .ok ([], rest)
    | .comma :: rest => flowItems room bound rest
    | [] => .error .unfinished
    | _ => .error .noNode
termination_by structural bound => bound

/-- The rows up to a closing bracket; a part that is no key makes a row without a value. -/
def flowRows (room : Nat) : Nat → List Token → Except Malformed (List (Tree × Tree) × List Token)
  | 0, _ => .error .noNode
  | bound + 1, tokens =>
    match tokens with
    | .closeTable :: rest => .ok ([], rest)
    | .key :: rest => do
      let (first, rest) ← row (endsInFlow .closeTable) false room bound rest
      let (rows, rest) ← moreRows room bound rest
      pure (first :: rows, rest)
    | _ => do
      let (key, rest) ← read false room bound tokens
      let (rows, rest) ← moreRows room bound rest
      pure ((key, blank) :: rows, rest)
termination_by structural bound => bound

/-- What follows a row between brackets. -/
def moreRows (room : Nat) : Nat → List Token → Except Malformed (List (Tree × Tree) × List Token)
  | 0, _ => .error .noNode
  | bound + 1, tokens =>
    match tokens with
    | .closeTable :: rest => .ok ([], rest)
    | .comma :: rest => flowRows room bound rest
    | [] => .error .unfinished
    | _ => .error .noNode

termination_by structural bound => bound
end

/-! ## Documents -/

/-- How many lists and tables may stand in each other. -/
def maxDepth : Nat := 488

/-- Passes over directives and the line of dashes behind them.  One directive at most names the version,
and no handle is given away twice. -/
def head (isVersioned : Bool) (handles : List String) : List Token → Except Malformed (List Token)
  | .version major :: rest =>
    if isVersioned || major != 1 then .error .badDirective else head true handles rest
  | .handle name :: rest =>
    if handles.contains name then .error .badDirective else head isVersioned (name :: handles) rest
  | .directive :: rest => head isVersioned handles rest
  | .documentStart :: rest => .ok rest
  | [] => .error .unfinished
  | _ => .error .badDirective

/-- Whether a document without content is followed by the token. -/
def endsDocument (t : Token) : Bool :=
  t.isDirective || t == .documentStart || t == .documentEnd || t == .finish

/-- The content of the first document.  It may start at once, and then it is not empty. -/
def content (tokens : List Token) : Except Malformed (Tree × List Token) := do
  let bound := 3 * tokens.length + 3
  if tokens.head?.any fun t => t.isDirective || t == .documentStart then
    let rest ← head false [] tokens
    if rest.head?.any endsDocument then pure (blank, rest) else read false maxDepth bound rest
  else read false maxDepth bound tokens

/-- The tree of the only document; an empty text is an empty one. -/
def ofTokens (tokens : List Token) : Except Malformed Tree := do
  if tokens.head? = some .finish then pure blank
  else
    let (tree, rest) ← content tokens
    match rest.dropWhile (· == .documentEnd) with
    | .finish :: _ => pure tree
    | rest => do
      let _ ← head false [] rest
      throw .manyDocuments

/-- The tree of the only document of a text.  A fault among the tokens is told only if the tokens
before it are not enough. -/
def ofText (text : String) : Except Malformed Tree :=
  let (tokens, fault) := Token.ofText text
  match ofTokens tokens, fault with
  | .error .unfinished, some e => .error e
  | r, _ => r

end Tree

end Docset.Yaml
