/-
  The value of a document, and a reader.

  A configuration is loaded with any reader, and what holds of loading holds for each of them.  The one here is
  for running the program without a larger one: it reads the part of the language that needs no memory and no
  types, which is block and flow lists and tables, plain and quoted texts, comments and directives.  Tags,
  anchors, aliases and block scalars are refused.

  A table takes over the rows of other tables that stand under `<<`, in front of its own; of two rows
  with one key the later one counts.  Of several faults the one that is nested least is told, and of
  these the first.
-/
import Docset.Value.Key
import Docset.Value.Reader
import Docset.Yaml.Scalar
import Docset.Yaml.Tree

namespace Docset.Yaml

/-! ## Faults in order -/

/-- A result, or a fault with the depth at which it lies. -/
abbrev Built (α : Type) := Except (Nat × Fault) α

/-- A fault at the place itself. -/
def Built.ofExcept {α : Type} (r : Except Fault α) : Built α := r.mapError fun f => (0, f)

/-- The same fault, as seen from one level up. -/
def Built.lower {α : Type} (r : Built α) : Built α := r.mapError fun (depth, f) => (depth + 1, f)

/-- Two results, or the fault that lies higher; the first of two at one depth. -/
def Built.both {α β : Type} (a : Built α) (b : Built β) : Built (α × β) :=
  match a, b with
  | .ok x, .ok y => .ok (x, y)
  | .ok _, .error f => .error f
  | .error f, .ok _ => .error f
  | .error f, .error g => .error (if f.1 ≤ g.1 then f else g)

/-- All results, or the fault that lies highest; the first of those at one depth. -/
def Built.all {α : Type} : List (Built α) → Built (List α)
  | [] => .ok []
  | r :: rest => (r.both (Built.all rest)).map fun (x, xs) => x :: xs

/-! ## Values -/

/-- The fault of a value that stands for nothing, and of a key that cannot be one. -/
def noValue : Fault := .malformed .noValue

/-- The value of a text. -/
def textValue (content : String) (isPlain : Bool) : Except Fault Value := do
  match ← Meaning.ofText content isPlain with
  | .value v => pure v
  | .merge => throw noValue
  | .equals => throw noValue

/-- The key that a text is; here `=` is a text like any other. -/
def textKey (content : String) (isPlain : Bool) : Except Fault Value := do
  match ← Meaning.ofText content isPlain with
  | .value v => pure v
  | .merge => throw noValue
  | .equals => pure (.text content)

/-- Whether a part is the word that takes over rows. -/
def isMerge : Tree → Bool
  | .text content isPlain => isPlain && content == "<<"
  | _ => false

/-- A key. -/
def keyOf : Tree → Built Value
  | .text content isPlain => .ofExcept (textKey content isPlain)
  | _ => .error (0, noValue)

mutual

/-- The value of a part. -/
def valueOf : Tree → Built Value
  | .text content isPlain => .ofExcept (textValue content isPlain)
  | .list items => (Built.all (itemsOf items)).lower.map .list
  | .table rows =>
    match rowsOf rows with
    | .ok (taken, own) => (Built.all (taken ++ own)).lower.map .tableOf
    | .error f => .error (1, f)

/-- The values of items. -/
def itemsOf : List Tree → List (Built Value)
  | [] => []
  | t :: rest => valueOf t :: itemsOf rest

/-- The rows that a table takes over, and its own. -/
def rowsOf : List (Tree × Tree) →
    Except Fault (List (Built (Value × Value)) × List (Built (Value × Value)))
  | [] => .ok ([], [])
  | (key, value) :: rest => do
    if isMerge key then
      -- The word itself leaves no row behind.
      let here ← takenFrom value
      let (taken, own) ← rowsOf rest
      pure (here ++ taken, own)
    else
      let row := (keyOf key).both (valueOf value)
      let (taken, own) ← rowsOf rest
      pure (taken, row :: own)

/-- The rows that a part offers: those of a table, or those of the tables of a list, last first. -/
def takenFrom : Tree → Except Fault (List (Built (Value × Value)))
  | .table rows => do
    let (taken, own) ← rowsOf rows
    pure (taken ++ own)
  | .list items => do
    let offered ← takenFromEach items
    pure offered.reverse.flatten
  | .text _ _ => throw noValue

/-- The rows that each part of a list offers; all of them have to be tables. -/
def takenFromEach : List Tree → Except Fault (List (List (Built (Value × Value))))
  | [] => .ok []
  | .table rows :: rest => do
    let (taken, own) ← rowsOf rows
    pure ((taken ++ own) :: (← takenFromEach rest))
  | _ => throw noValue

end

/-- The value of the document that a text is. -/
def readDocument (text : String) : Except Fault Value := do
  let tree ← (Tree.ofText text).mapError Fault.ofMalformed
  (valueOf tree).mapError Prod.snd

/-! ## The reader -/

/-- A fault in the words of a reader.  Limits are no faults of form. -/
def Fault.told : Fault → ReadError
  | .malformed _ => .malformed "no document"
  | .number e => .other (if e.isOverflow then "OverflowError" else "ValueError") e.message
  | .outOfRange e => .other "ValueError" e.message
  | .tooDeep => .other "RecursionError" "maximum recursion depth exceeded"

/-- The reader of documents. -/
def reader : Docset.Reader := fun text => (readDocument text).mapError Fault.told

end Docset.Yaml
