/-
  Elements: what documentation is about.

  An element has a kind, a qualified name and a local name, the namespace and the package that it
  belongs to, descriptive tags, and members.  A file is an element too, with a path, a checksum and
  perhaps its source text.  Namespaces and packages are given as text until a build binds them to a
  node, so a reference is one or the other (`SpaceRef`, `PackageRef`).

  Members and tags are rosters: everything filed so far, in the order of filing.  The groups that a
  reader sees (members by kind, tags by name) are views of the roster, in the order in which the
  groups began.
-/
import Docset.Name.Path
import Docset.Text.Quoted

namespace Docset

open Docset.Text

/-! ## Kinds -/

/-- What sort of thing an element is. -/
inductive Kind
  | classType
  | interfaceType
  | traitType
  | enumType
  | function
  | constant
  | file
  | method
  | property
  | enumCase
  deriving DecidableEq, Repr, Inhabited

namespace Kind

/-- All kinds. -/
def all : List Kind :=
  [classType, interfaceType, traitType, enumType, function, constant, file, method, property, enumCase]

/-- The word for a kind. -/
def label : Kind → String
  | classType => "class"
  | interfaceType => "interface"
  | traitType => "trait"
  | enumType => "enum"
  | function => "function"
  | constant => "constant"
  | file => "file"
  | method => "method"
  | property => "property"
  | enumCase => "case"

/-- The kind with a label. -/
def ofLabel? (label : String) : Option Kind := all.find? (·.label == label)

/-- Every kind is found under its label. -/
theorem ofLabel?_label (k : Kind) : ofLabel? k.label = some k := by
  cases k <;> decide

end Kind

/-- A word that is the label of no kind. -/
structure UnknownKind where
  /-- The word. -/
  word : String
  deriving DecidableEq, Repr

/-- What is told about the word. -/
def UnknownKind.message (e : UnknownKind) : String :=
  quoted e.word ++ " is not a valid ElementKind"

/-- Reads the label of a kind. -/
def Kind.parse (word : String) : Except UnknownKind Kind :=
  match ofLabel? word with
  | some kind => .ok kind
  | none => .error ⟨word⟩

/-! ## Names of rows -/

/-- The number of an element. -/
structure ElementId where
  /-- Its row. -/
  row : Nat
  deriving DecidableEq, Repr, Inhabited

/-- The number of a node of a namespace or package tree. -/
structure NodeId where
  /-- Its row. -/
  row : Nat
  deriving DecidableEq, Repr, Inhabited

/-! ## Rosters -/

/-- Elements filed under kinds, in the order of filing. -/
structure Roster where
  /-- Every filing: the kind filed under, and the element. -/
  filed : List (Kind × ElementId)
  deriving DecidableEq, Repr, Inhabited

namespace Roster

/-- The roster with nothing filed. -/
def empty : Roster := ⟨[]⟩

/-- Files an element under a kind, after all that is there. -/
def add (r : Roster) (kind : Kind) (e : ElementId) : Roster := ⟨r.filed ++ [(kind, e)]⟩

/-- What is filed under a kind, in order. -/
def ofKind (r : Roster) (kind : Kind) : List ElementId :=
  (r.filed.filter (·.1 == kind)).map Prod.snd

/-- The kinds with something filed, in the order in which they began. -/
def kinds (r : Roster) : List Kind := (r.filed.map Prod.fst).eraseDups

@[simp] theorem ofKind_empty (kind : Kind) : empty.ofKind kind = [] := rfl

/-- Filing under a kind appends to that kind and leaves the others alone. -/
theorem ofKind_add (r : Roster) (kind : Kind) (e : ElementId) (k : Kind) :
    (r.add kind e).ofKind k = if kind = k then r.ofKind k ++ [e] else r.ofKind k := by
  by_cases h : kind = k <;> simp [add, ofKind, h]

end Roster

/-! ## Tags -/

/-- A descriptive tag. -/
structure Tag where
  /-- The name of the tag. -/
  name : String
  /-- The text that follows the name. -/
  description : String
  deriving DecidableEq, Repr, Inhabited

/-! ## References -/

/-- The namespace of an element: a path, or the node that stands for it. -/
inductive SpaceRef
  | path (text : String)
  | node (id : NodeId)
  deriving DecidableEq, Repr, Inhabited

/-- The package of an element: none yet, a text, or the node that stands for it. -/
inductive PackageRef
  | unset
  | text (text : String)
  | node (id : NodeId)
  deriving DecidableEq, Repr, Inhabited

/-! ## Elements -/

/-- What a file has beyond other elements. -/
structure FileData where
  /-- Where the file is, with `/` between names. -/
  path : String
  /-- A checksum of the file. -/
  hash : String
  /-- The text of the file, where it is kept. -/
  source : Option String
  deriving DecidableEq, Repr, Inhabited

/-- A documentable construct, or a file of them. -/
structure Element where
  /-- The kind. -/
  kind : Kind
  /-- The qualified name, as it was written. -/
  qualifiedName : String
  /-- The local name. -/
  name : String
  /-- The namespace. -/
  space : SpaceRef
  /-- The package. -/
  package : PackageRef
  /-- The tags, in the order of writing. -/
  tags : List Tag
  /-- The members. -/
  members : Roster
  /-- What only a file has. -/
  file : Option FileData
  deriving DecidableEq, Repr, Inhabited

namespace Element

/-- An element without tags and members; an empty local name is read off the qualified name. -/
def declare (kind : Kind) (qualifiedName name : String) (space : SpaceRef) (package : PackageRef) :
    Element where
  kind := kind
  qualifiedName := qualifiedName
  name := if name = "" then Path.localName qualifiedName else name
  space := space
  package := package
  tags := []
  members := .empty
  file := none

/-- The name of the file at a path: what follows the last `/`. -/
def fileName (path : String) : String :=
  match splitLast '/' path.toList with
  | some (_, name) => String.ofList name
  | none => path

/-- A file without tags and members; it is named by its path where no name is given. -/
def declareFile (data : FileData) (qualifiedName name : String) (space : SpaceRef)
    (package : PackageRef) : Element where
  kind := .file
  qualifiedName := if qualifiedName = "" then data.path else qualifiedName
  name := if name = "" then fileName data.path else name
  space := space
  package := package
  tags := []
  members := .empty
  file := some data

/-- The first tag with a name. -/
def firstTag (e : Element) (name : String) : Option Tag := e.tags.find? (·.name == name)

/-- The element with one more tag. -/
def addTag (e : Element) (tag : Tag) : Element := { e with tags := e.tags ++ [tag] }

/-- The names of the tags, in the order in which they began. -/
def tagNames (e : Element) : List String := (e.tags.map Tag.name).eraseDups

/-- The tags with a name, in order. -/
def tagsNamed (e : Element) (name : String) : List Tag := e.tags.filter (·.name == name)

/-- The element without its source text. -/
def withoutSource (e : Element) : Element :=
  { e with file := e.file.map fun data => { data with source := none } }

end Element

end Docset
