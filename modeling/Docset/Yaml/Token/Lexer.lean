/-
  Reading the tokens of a document.

  A key is told only by the `:` behind it.  So every token that may turn out to be a key is remembered
  with its place among the tokens (`PendingKey`), one at each depth of brackets, and the key token is
  put in front of it once the `:` comes.  A key stands on one line and is 1024 characters long at most;
  one that stands at the very indentation of its block has to be a key, since nothing else may stand
  there (`required`).

  Tokens are read up to the first fault.  Of those before it, a reader gets only the ones that are
  settled (`settled`): behind a key to come nothing is.
-/
import Docset.Yaml.Plain
import Docset.Yaml.Quoted
import Docset.Yaml.Token.Directive

namespace Docset.Yaml

/-- A token that turns out to be a key if a `:` follows it. -/
structure PendingKey where
  /-- How many tokens stand before it. -/
  place : Nat
  /-- Whether it cannot be anything else. -/
  required : Bool
  /-- Where it starts. -/
  start : Cursor
  deriving Repr

/-- What is known between two tokens. -/
structure Lexer where
  /-- Where the next token starts. -/
  cursor : Cursor
  /-- The tokens so far. -/
  tokens : Array Token
  /-- The token that may be a key, inside the innermost brackets. -/
  pending : Option PendingKey
  /-- The tokens that may be keys around the brackets, from the inside out. -/
  enclosing : List (Option PendingKey)
  /-- The indentation of the innermost block; -1 outside all blocks. -/
  indent : Int
  /-- The indentations of the blocks around it, from the inside out. -/
  outer : List Int
  /-- Whether a key may start here. -/
  keyAllowed : Bool
  deriving Repr

namespace Lexer

/-- The most characters of a key. -/
def maxKeyLength : Nat := 1024

/-- The state before the first token. -/
def start (text : String) : Lexer where
  cursor := .start text.toList
  tokens := #[]
  pending := none
  enclosing := []
  indent := -1
  outer := []
  keyAllowed := true

/-- Whether the place is between brackets. -/
def inFlow (l : Lexer) : Bool := !l.enclosing.isEmpty

/-- The column of the place. -/
def column (l : Lexer) : Int := l.cursor.column

/-- Adds a token. -/
def emit (l : Lexer) (t : Token) : Lexer := { l with tokens := l.tokens.push t }

/-- Puts a token in front of the token at a place. -/
def insert (l : Lexer) (place : Nat) (t : Token) : Lexer :=
  { l with tokens := l.tokens.insertIdxIfInBounds place t }

/-- Reads on by some characters. -/
def skip (l : Lexer) (n : Nat) : Lexer := { l with cursor := l.cursor.skip n }

/-! ## Gaps -/

/-- Passes over spaces, comments and line ends. -/
def passGap : Nat → Lexer → Lexer
  | 0, l => l
  | bound + 1, l =>
    let c := l.cursor.skipWhile (· == ' ')
    let c := if c.peek == some '#' then c.skipWhile fun ch => !isBreak ch else c
    match c.lineBreak? with
    | some (_, c) => passGap bound { l with cursor := c, keyAllowed := l.keyAllowed || !l.inFlow }
    | none => { l with cursor := c }

/-- Passes over a byte order mark at the start of the text. -/
def passMark (l : Lexer) : Lexer :=
  if l.cursor.index = 0 ∧ l.cursor.peek = some '\uFEFF' then l.skip 1 else l

/-! ## Keys to come -/

/-- Gives up a key to come, unless it has to be one. -/
def giveUp : Option PendingKey → Except Malformed (Option PendingKey)
  | some k => if k.required then .error .danglingKey else .ok none
  | none => .ok none

/-- Whether the place is too far on for a key to come. -/
def isPast (c : Cursor) (k : PendingKey) : Bool :=
  k.start.line != c.line || maxKeyLength < c.index - k.start.index

/-- Gives up a key to come if the place is too far on. -/
def expire (c : Cursor) (k : Option PendingKey) : Except Malformed (Option PendingKey) :=
  if k.any (isPast c) then giveUp k else .ok k

/-- Gives up all keys to come that the place is too far on for. -/
def expireAll (l : Lexer) : Except Malformed Lexer := do
  let pending ← expire l.cursor l.pending
  let enclosing ← l.enclosing.mapM (expire l.cursor)
  pure { l with pending := pending, enclosing := enclosing }

/-- Gives up the key to come inside the innermost brackets. -/
def dropPending (l : Lexer) : Except Malformed Lexer := do
  pure { l with pending := ← giveUp l.pending }

/-- Remembers the next token as one that may be a key. -/
def savePending (l : Lexer) : Except Malformed Lexer :=
  if l.keyAllowed then do
    let l ← l.dropPending
    pure { l with pending := some ⟨l.tokens.size, !l.inFlow && l.indent == l.column, l.cursor⟩ }
  else pure l

/-! ## Blocks -/

/-- Closes the blocks that are indented more than a column. -/
def closeBlocks (l : Lexer) (column : Int) : Lexer :=
  if l.inFlow then l
  else
    let all := l.indent :: l.outer
    let closed := all.takeWhile (column < ·)
    match all.drop closed.length with
    | indent :: outer =>
      { l with
        indent := indent
        outer := outer
        tokens := l.tokens ++ Array.replicate closed.length Token.blockEnd }
    | [] => l

/-- Opens a block at a column that is indented more than the innermost one; its first token goes in
front of the token at a place. -/
def openBlock (l : Lexer) (column : Int) (place : Nat) (t : Token) : Lexer :=
  if l.indent < column then
    { l with indent := column, outer := l.indent :: l.outer }.insert place t
  else l

/-- Opens a block at the place itself; there a key has to be allowed. -/
def openBlockHere (l : Lexer) (t : Token) : Except Malformed Lexer :=
  if l.inFlow then .ok l
  else if l.keyAllowed then .ok (l.openBlock l.column l.tokens.size t)
  else .error .misplaced

/-! ## Tokens -/

/-- Ends all blocks before something that stands outside all documents. -/
def leaveBlocks (l : Lexer) : Except Malformed Lexer := do
  let l ← (l.closeBlocks (-1)).dropPending
  pure { l with keyAllowed := false }

/-- The line that parts documents. -/
def documentMark (l : Lexer) (t : Token) : Except Malformed Lexer := do
  pure ((← l.leaveBlocks).emit t |>.skip 3)

/-- An opening bracket. -/
def openBracket (l : Lexer) (t : Token) : Except Malformed Lexer := do
  let l ← l.savePending
  let l := { l with enclosing := l.pending :: l.enclosing, pending := none, keyAllowed := true }
  pure (l.emit t |>.skip 1)

/-- A closing bracket. -/
def closeBracket (l : Lexer) (t : Token) : Except Malformed Lexer := do
  let _ ← l.dropPending
  match l.enclosing with
  | [] => throw .misplaced
  | pending :: enclosing =>
    let l := { l with pending := pending, enclosing := enclosing, keyAllowed := false }
    pure (l.emit t |>.skip 1)

/-- A comma. -/
def comma (l : Lexer) : Except Malformed Lexer := do
  let l ← l.dropPending
  pure ({ l with keyAllowed := true }.emit .comma |>.skip 1)

/-- The dash of an entry. -/
def entry (l : Lexer) : Except Malformed Lexer := do
  let l ← (← l.openBlockHere .blockList).dropPending
  pure ({ l with keyAllowed := true }.emit .entry |>.skip 1)

/-- The question mark of a key. -/
def explicitKey (l : Lexer) : Except Malformed Lexer := do
  let l ← (← l.openBlockHere .blockTable).dropPending
  pure ({ l with keyAllowed := !l.inFlow }.emit .key |>.skip 1)

/-- The colon of a value: what was a key to come becomes a key. -/
def value (l : Lexer) : Except Malformed Lexer := do
  match l.pending with
  | some k =>
    -- The block is put in last, so that it stands before the key.
    let l := { l with pending := none, keyAllowed := false }.insert k.place .key
    let l := if l.inFlow then l else l.openBlock k.start.column k.place .blockTable
    pure (l.emit .value |>.skip 1)
  | none =>
    let l ← l.openBlockHere .blockTable
    pure ({ l with keyAllowed := !l.inFlow }.emit .value |>.skip 1)

/-- A text in quotes. -/
def quoted (mark : Char) (l : Lexer) : Except Malformed Lexer := do
  let l ← l.savePending
  let (content, c) ← quotedText mark l.cursor
  pure { l.emit (.text (String.ofList content) false) with cursor := c, keyAllowed := false }

/-- A text without quotes. -/
def plain (l : Lexer) : Except Malformed Lexer := do
  let l ← l.savePending
  let (content, c, broken) := plainText l.inFlow (l.indent + 1) l.cursor
  pure { l.emit (.text (String.ofList content) true) with cursor := c, keyAllowed := broken }

/-- The token that starts with a character.  Marks of one character count outside brackets only if
the word ends after them. -/
def token (l : Lexer) (ch : Char) : Except Malformed Lexer :=
  let atStart := l.cursor.column == 0
  let alone := endsWord (l.cursor.peekAt 1)
  if atStart && ch == '%' then do
    let l ← l.leaveBlocks
    let (t, c) ← Directive.read l.cursor.next
    pure { l.emit t with cursor := c }
  else if atStart && l.cursor.atMark '-' then l.documentMark .documentStart
  else if atStart && l.cursor.atMark '.' then l.documentMark .documentEnd
  else if ch == '[' then l.openBracket .openList
  else if ch == '\x7b' then l.openBracket .openTable
  else if ch == ']' then l.closeBracket .closeList
  else if ch == '\x7d' then l.closeBracket .closeTable
  else if ch == ',' then l.comma
  else if ch == '-' && alone then l.entry
  else if ch == '?' && (l.inFlow || alone) then l.explicitKey
  else if ch == ':' && (l.inFlow || alone) then l.value
  else if ch == '\'' || ch == '"' then l.quoted ch
  else if startsPlain l.inFlow ch (l.cursor.peekAt 1) then l.plain
  else .error .noToken

/-- Reads the next token, and tells whether it is the last. -/
def advance (l : Lexer) : Except Malformed (Lexer × Bool) := do
  -- Keys expire before blocks close: a required one must not be closed over.
  let l ← (l.passMark.passGap (l.cursor.rest.length + 1)).expireAll
  let l := l.closeBlocks l.column
  match l.cursor.peek with
  | none => pure ((← (l.closeBlocks (-1)).dropPending).emit .finish, true)
  | some ch => pure (← l.token ch, false)

/-- The tokens before the first key that is still to come. -/
def settled (l : Lexer) : List Token :=
  let keys := ((l.pending :: l.enclosing).filterMap id).filter (!isPast l.cursor ·)
  l.tokens.toList.take (keys.foldl (fun n k => min n k.place) l.tokens.size)

/-- All tokens, or the settled ones before the first fault. -/
def run : Nat → Lexer → List Token × Option Malformed
  | 0, l => (l.settled, none)
  | bound + 1, l =>
    match l.advance with
    | .ok (l, false) => run bound l
    | .ok (l, true) => (l.tokens.toList, none)
    | .error e => (l.settled, some e)

end Lexer

/-- The tokens of a text, or those before the first fault in it. -/
def Token.ofText (text : String) : List Token × Option Malformed :=
  match text.toList.find? (!isAllowed ·) with
  | some c => ([], some (.unprintable c))
  | none => Lexer.run (text.length + 2) (.start text)

end Docset.Yaml
