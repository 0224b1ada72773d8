/-
  Build steps.

  A build step changes the store and answers, or fails with a cause.  What it did before it failed
  stays done: the store goes on past a failure.
-/
import Docset.Store

namespace Docset

/-- A step that works on the store and may fail with an `ε`. -/
abbrev Build (ε : Type) := EStateM ε Store

namespace Build

variable {ε : Type}

/-- A change of the store that answers with nothing. -/
def change (f : Store → Store) : Build ε Unit := modify f

/-- Records a message for those who look closely. -/
def debug (logger text : String) : Build ε Unit := change (·.record logger Level.debug text)

/-- Adds a node. -/
def addNode (n : Node) : Build ε NodeId := modifyGet fun s => (s.addNode n).swap

/-- A step whose failures are told in other words. -/
def mapError {δ α : Type} (f : δ → ε) (step : Build δ α) : Build ε α := fun s =>
  match step s with
  | .ok a s => .ok a s
  | .error e s => .error (f e) s

/-- Runs a step for every member of a list, from left to right, up to the first failure. -/
def forEach {α : Type} (step : α → Build ε Unit) : List α → Build ε Unit
  | [] => pure ()
  | a :: rest => do
    step a
    forEach step rest

end Build

/-! ## Entries of the wrong sort -/

/-- An index holds under a key something that is no node of the tree it is for. -/
structure IndexMismatch where
  /-- The tree whose index was asked. -/
  expected : Tree
  /-- The key. -/
  key : String
  /-- The word for what was found. -/
  actual : String
  deriving DecidableEq, Repr

/-- What is told about the mismatch. -/
def IndexMismatch.message (m : IndexMismatch) : String :=
  "Index '" ++ m.expected.indexName ++ "' entry '" ++ m.key ++ "' is a " ++ m.actual
    ++ ", expected " ++ m.expected.nodeName

namespace Store

/-- The word for the type of an entry. -/
def entryType (s : Store) : Entry → String
  | .element e => if (s.element e).file.isSome then "FileElement" else "Element"
  | .node n => (s.node n).tree.nodeName
  | .foreign value => value.typeName

/-- The node of a tree that an index holds under a key; null counts as nothing. -/
def lookUp (s : Store) (tree : Tree) (d : SetId) (index key : String) :
    Except IndexMismatch (Option NodeId) :=
  match (s.index d index).get? key with
  | none => .ok none
  | some (.foreign .null) => .ok none
  | some (.node n) =>
    if (s.node n).tree = tree then .ok (some n) else .error ⟨tree, key, (s.node n).tree.nodeName⟩
  | some entry => .error ⟨tree, key, s.entryType entry⟩

end Store

/-- Looks up a node of a tree. -/
def Build.lookUp (tree : Tree) (d : SetId) (index key : String) : Build IndexMismatch (Option NodeId) :=
  fun s =>
    match s.lookUp tree d index key with
    | .ok found => .ok found s
    | .error e => .error e s

/-! ## Why an element is not bound -/

/-- What keeps an element from its place in a tree. -/
inductive BindError
  | entry (e : IndexMismatch)
  | misfit (m : Misfit)
  deriving DecidableEq, Repr

/-- What is told about it. -/
def BindError.message : BindError → String
  | .entry e => e.message
  | .misfit m => m.message

/-- Files an element at a node under the kind it has. -/
def Build.fileAt (n : NodeId) (e : ElementId) : Build BindError Unit := fun s =>
  match s.fileAt n (s.element e).kind e with
  | .ok s => .ok () s
  | .error m => .error (.misfit m) s

end Docset
