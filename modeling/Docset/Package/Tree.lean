/-
  The tree of packages.

  Each file, and each declared element but enums, is bound to the package that its tags name.  A
  package that the index does not know is made with all above it, going down from the root through the
  children; a package with an empty name is the child "UNKNOWN" there.
-/
import Docset.Index.Elements
import Docset.Package.Name

namespace Docset

open Docset.Text

/-- The name of the logger. -/
def packageLogger : String := "compiler.package_tree"

/-- The key of a package without a name among its parent's children. -/
def namelessKey : String := "UNKNOWN"

/-! ## Growing -/

/-- The key of a package among its parent's children. -/
def childKey (name : String) : String := if name = "" then namelessKey else name

/-- The child of a package with a name, which is made where it is missing. -/
def openChild {ε : Type} (d : SetId) (index : String) (parent : NodeId) (path name : String) :
    Build ε NodeId := do
  match ((← get).node parent).children.get? (childKey name) with
  | some child => pure child
  | none =>
    let child ← Build.addNode (.single .package name path)
    Build.change (·.addChild parent (childKey name) child)
    Build.change (·.putEntry d index path (.node child))
    Build.debug packageLogger ("Created package " ++ path)
    pure child

/-- Goes down from a package along names, making what is missing. -/
def descend {ε : Type} (d : SetId) (index : String) (here : NodeId) (path : String) :
    List String → Build ε NodeId
  | [] => pure here
  | name :: rest => do
    let below := Path.child path name
    let child ← openChild d index here below name
    descend d index child below rest

/-- The root of the packages of an index, which is made where it is missing. -/
def openPackageRoot (d : SetId) (index : String) : Build IndexMismatch NodeId := do
  match ← Build.lookUp .packages d index Path.root with
  | some root => pure root
  | none =>
    let root ← Build.addNode .packageRoot
    Build.change (·.putEntry d index Path.root (.node root))
    pure root

/-- The names along a package's path. -/
def packageParts (name : String) : List String :=
  (fields Path.separator name.toList).map String.ofList

/-- The package at a path from the root, with every package on the way. -/
def growPackage (d : SetId) (index name : String) : Build IndexMismatch NodeId := do
  let root ← openPackageRoot d index
  descend d index root "" (packageParts name)

/-! ## Binding -/

/-- Binds an element to its package and files it there. -/
def bindPackage (d : SetId) (index : String) (e : ElementId) : Build BindError Unit := do
  let name := ((← get).element e).packageName
  let n ←
    (do
      match ← Build.lookUp .packages d index (Path.root ++ name) with
      | some n => pure n
      | none => growPackage d index name : Build IndexMismatch NodeId).mapError BindError.entry
  -- The element is bound before it is filed, so one that does not fit stays bound.
  Build.change (·.updateElement e fun element => { element with package := .node n })
  Build.fileAt n e

/-- Binds elements to their packages, in order. -/
def bindPackages (d : SetId) (index : String) (es : List ElementId) : Build BindError Unit :=
  Build.forEach (bindPackage d index) es

/-! ## The whole tree -/

/-- The kinds of declared element that belong to packages. -/
def packagedKinds : List Kind :=
  [.constant, .function, .classType, .interfaceType, .traitType]

/-- The files of a set, each followed by what it declares for packages. -/
def Store.packaged (s : Store) (d : SetId) : List ElementId :=
  (s.files d).values.flatMap fun file => file :: s.declaredIn packagedKinds file

/-- Makes the tree of packages anew. -/
def buildPackages (d : SetId) : Build BindError Unit := do
  match ((← get).docSet d).code with
  | none => pure ()
  | some _ =>
    let index := Tree.packages.indexName
    let root ← Build.addNode .packageRoot
    Build.change (·.updateCode d fun code => { code with packageRoot := root })
    Build.change (·.setIndex d index (Ledger.empty.put Path.root (.node root)))
    bindPackages d index ((← get).packaged d)
    Build.debug packageLogger
      ("Built package tree with " ++ toString ((← get).index d index).size ++ " packages")

end Docset
