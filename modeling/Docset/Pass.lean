/-
  Passes: the steps that a compiler runs over a documentation set.

  A pass is told which set to work on and answers with the set to go on with, or with none for the
  one it was given.  Four passes come with the library; passes of other makers take part on the same
  terms, and their failures are kept in the words they came with (`PassFailure.foreign`).
-/
import Docset.Namespace.Tree
import Docset.Package.Tree
import Docset.Store.Source

namespace Docset

/-! ## Failures -/

/-- Why a pass failed. -/
inductive PassFailure
  | bind (e : BindError)
  /-- A failure of another maker's pass: its sort, and what is told about it. -/
  | foreign (sort text : String)
  deriving DecidableEq, Repr

/-- What is told about the failure. -/
def PassFailure.message : PassFailure → String
  | .bind e => e.message
  | .foreign _ text => text

/-! ## Passes -/

/-- A step of a compiler. -/
structure Pass where
  /-- The word for this sort of pass. -/
  sort : String
  /-- The name by which it is asked for. -/
  name : String
  /-- Passes run from the highest priority down. -/
  priority : Int
  /-- What it does. -/
  description : String
  /-- The work: on which set, and with which set to go on. -/
  run : SetId → Build PassFailure (Option SetId)

namespace Pass

/-- The words under which a pass is announced. -/
def title (p : Pass) : String := if p.description = "" then p.sort else p.description

/-- Makes the indexes of elements. -/
def elementsIndex : Pass where
  sort := "ElementsIndexBuilder"
  name := "elements-index"
  priority := 15000
  description := "Build \"elements\" index"
  run d := do
    indexElements d
    pure (some d)

/-- Makes the tree of namespaces. -/
def namespaceTree : Pass where
  sort := "NamespaceTreeBuilder"
  name := "namespace-tree"
  priority := 9000
  description := "Build \"namespaces\" index and add namespaces to \"elements\""
  run d := do
    (buildSpaces d).mapError .bind
    pure (some d)

/-- Makes the tree of packages. -/
def packageTree : Pass where
  sort := "PackageTreeBuilder"
  name := "package-tree"
  priority := 9001
  description := "Build \"packages\" index"
  run d := do
    (buildPackages d).mapError .bind
    pure (some d)

/-- Takes source text out. -/
def removeSource : Pass where
  sort := "RemoveSourcecode"
  name := "remove-source"
  priority := 2000
  description := "Removing sourcecode from file descriptors"
  run d := do
    removeSources d
    pure (some d)

/-- The passes of the library. -/
def builtin : List Pass := [elementsIndex, namespaceTree, packageTree, removeSource]

/-- The pass of the library with a name. -/
def builtin? (name : String) : Option Pass := builtin.find? (·.name == name)

end Pass

end Docset
