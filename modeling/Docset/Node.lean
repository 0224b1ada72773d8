/-
  Nodes of the two trees.

  Elements are filed in the tree of namespaces and in the tree of packages.  A node has a name, a
  path, a parent, children under keys, and the elements filed at it.  A namespace also knows the path
  it hangs off (`Role.space`), which is all that is known of its parent until it is linked.
-/
import Docset.Element
import Docset.Ledger
import Docset.Name.Qualified

namespace Docset

open Docset.Text

/-! ## The trees -/

/-- The two trees that elements are filed in. -/
inductive Tree
  | spaces
  | packages
  deriving DecidableEq, Repr, Inhabited

namespace Tree

/-- The word for a node of the tree. -/
def nodeName : Tree → String
  | spaces => "NamespaceNode"
  | packages => "PackageNode"

/-- The index that holds the nodes of the tree under their paths. -/
def indexName : Tree → String
  | spaces => "namespaces"
  | packages => "packages"

/-- The kinds of element that nodes of the tree hold. -/
def kinds : Tree → List Kind
  | spaces => [.constant, .function, .classType, .interfaceType, .traitType, .enumType]
  | packages => [.file, .constant, .function, .classType, .interfaceType, .traitType]

end Tree

/-! ## Nodes -/

/-- Which tree a node belongs to, with what only that tree knows of it. -/
inductive Role
  | space (parentPath : String)
  | package
  deriving DecidableEq, Repr, Inhabited

/-- A node of a tree. -/
structure Node where
  /-- Its tree. -/
  role : Role
  /-- Its name. -/
  name : String
  /-- Its path. -/
  path : String
  /-- The node that it hangs off. -/
  parent : Option NodeId
  /-- The nodes below it, by key. -/
  children : Ledger String NodeId
  /-- The elements filed at it. -/
  members : Roster
  deriving DecidableEq, Repr, Inhabited

namespace Node

/-- A node by itself. -/
def single (role : Role) (name path : String) : Node where
  role := role
  name := name
  path := path
  parent := none
  children := .empty
  members := .empty

/-- The root of the namespaces. -/
def spaceRoot : Node := single (.space "") "" Path.root

/-- The namespace at a path. -/
def ofPath (path : String) : Node :=
  single (.space (Path.split path).1) (Path.split path).2 path

/-- The root of the packages. -/
def packageRoot : Node := single .package Path.root Path.root

/-- The tree of a node. -/
def tree (n : Node) : Tree :=
  match n.role with
  | .space _ => .spaces
  | .package => .packages

/-- The path that a namespace says it hangs off. -/
def parentPath (n : Node) : String :=
  match n.role with
  | .space parentPath => parentPath
  | .package => ""

/-- Whether the node has the root's path. -/
def isRoot (n : Node) : Bool := n.path == Path.root

/-- The number of names on the node's path. -/
def depth (n : Node) : Nat := Path.depth n.path

/-- The node as a term. -/
def describe (n : Node) : String := n.tree.nodeName ++ "(" ++ quoted n.path ++ ")"

end Node

/-! ## What a node does not hold -/

/-- A kind of element that has no collection at nodes of a tree. -/
structure Misfit where
  /-- The tree. -/
  tree : Tree
  /-- The kind. -/
  kind : Kind
  deriving DecidableEq, Repr

/-- What is told about the misfit. -/
def Misfit.message (m : Misfit) : String :=
  m.tree.nodeName ++ " does not hold '" ++ m.kind.label ++ "' elements"

/-- The elements of a kind that are filed at a node. -/
def Node.collection (n : Node) (kind : Kind) : Except Misfit (List ElementId) :=
  if kind ∈ n.tree.kinds then .ok (n.members.ofKind kind) else .error ⟨n.tree, kind⟩

end Docset
