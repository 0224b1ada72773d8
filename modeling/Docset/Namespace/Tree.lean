/-
  The tree of namespaces.

  Three steps make it.  Binding gives each declared element the node of its namespace, which is made
  where it is missing (`bindSpace`).  Linking hangs each node off the one above it and makes the ones
  that are missing on the way up (`linkSpace`); a namespace whose lineage breaks off before it meets a
  known one stays apart.  `buildSpaces` starts from a fresh root and an empty index, and so depends on
  the files alone.
-/
import Docset.Index.Elements
import Docset.Namespace.Lineage

namespace Docset

open Docset.Text

/-- The name of the logger. -/
def spaceLogger : String := "compiler.namespace_tree"

/-- The key of a namespace in the index of elements, where `~` sets it apart from element names. -/
def Node.indexKey (n : Node) : String := "~" ++ n.path

/-! ## Binding -/

/-- Makes the namespace of a path and enters it under the path. -/
def createSpace {ε : Type} (d : SetId) (index path : String) : Build ε NodeId := do
  let n ← Build.addNode (.ofPath path)
  Build.change (·.putEntry d index path (.node n))
  pure n

/-- Binds an element to its namespace and files it there; no path means the root. -/
def bindSpace (d : SetId) (index : String) (e : ElementId) : Build BindError Unit := do
  let given := (← get).spacePath e
  let path := if given = "" then Path.root else given
  let n ←
    match ← (Build.lookUp .spaces d index path).mapError BindError.entry with
    | some n => pure n
    | none => createSpace d index path
  -- The element is bound before it is filed, so one that does not fit stays bound.
  Build.change (·.updateElement e fun element => { element with space := .node n })
  Build.fileAt n e

/-- Binds elements to their namespaces, in order. -/
def bindSpaces (d : SetId) (index : String) (es : List ElementId) : Build BindError Unit :=
  Build.forEach (bindSpace d index) es

/-! ## Linking -/

/-- Enters a namespace in the index of elements. -/
def enterSpace {ε : Type} (d : SetId) (elements : String) (n : NodeId) : Build ε Unit :=
  Build.change fun s => s.putEntry d elements (s.node n).indexKey (.node n)

/-- Hangs a node off the first of the paths above it, making nodes until one is known. -/
def climb (d : SetId) (index elements : String) (n : NodeId) : List String → Build IndexMismatch Bool
  | [] => do
    let node := (← get).node n
    Build.debug spaceLogger
      ("Leaving namespace " ++ node.path ++ " unparented: invalid parent path " ++ quoted node.parentPath)
    pure false
  | above :: rest => do
    match ← Build.lookUp .spaces d index above with
    | some parent =>
      Build.change fun s => s.addChild parent (s.node n).name n
      pure true
    | none =>
      let parent ← createSpace d index above
      enterSpace d elements parent
      Build.change fun s => s.addChild parent (s.node n).name n
      climb d index elements parent rest

/-- Links a namespace into the tree; whether it could be. -/
def linkSpace (d : SetId) (index elements : String) (n : NodeId) : Build IndexMismatch Bool := do
  enterSpace d elements n
  let s ← get
  climb d index elements n (s.node n).lineage

/-- Links the nodes that are neither roots nor linked; how many could not be. -/
def linkSpaces (d : SetId) (index elements : String) : List NodeId → Build IndexMismatch Nat
  | [] => pure 0
  | n :: rest => do
    -- An earlier climb may have linked the node on its way.
    let node := (← get).node n
    if node.isRoot || node.parent.isSome then
      linkSpaces d index elements rest
    else
      let linked ← linkSpace d index elements n
      let apart ← linkSpaces d index elements rest
      pure (if linked then apart else apart + 1)

/-! ## The whole tree -/

/-- The nodes of an index, in order. -/
def Index.nodes (index : Index) : List NodeId :=
  index.values.filterMap fun
    | .node n => some n
    | _ => none

/-- Makes the tree of namespaces anew, and enters every namespace in the index of elements. -/
def buildSpaces (d : SetId) : Build BindError Unit := do
  match ((← get).docSet d).code with
  | none => pure ()
  | some _ =>
    let index := Tree.spaces.indexName
    let root ← Build.addNode .spaceRoot
    Build.change (·.updateCode d fun code => { code with spaceRoot := root })
    Build.change (·.openIndex d elementsIndex .empty)
    Build.change (·.setIndex d index (Ledger.empty.put Path.root (.node root)))
    enterSpace d elementsIndex root
    bindSpaces d index ((← get).declared d Tree.spaces.kinds)
    let apart ←
      (linkSpaces d index elementsIndex (Index.nodes ((← get).index d index))).mapError .entry
    Build.debug spaceLogger
      ("Built namespace tree with " ++ toString ((← get).index d index).size ++ " namespaces ("
        ++ toString apart ++ " unparented)")

end Docset
