/-
  The store: elements, nodes and documentation sets.

  Elements, nodes and sets are rows of tables and refer to each other by number, so an element may be
  listed in several files, a node may be a child of several nodes, and a change is seen by all who
  refer to it.  The journal of the build goes along.

  A documentation set has a name, settings and named indexes.  A set that describes source code has
  files and the roots of its two trees besides (`CodeBase`).  An index maps keys to entries: elements,
  nodes, or foreign values that someone else put there.
-/
import Docset.Journal
import Docset.Node
import Docset.Table
import Docset.Value

namespace Docset

/-! ## Indexes -/

/-- What stands under a key of an index. -/
inductive Entry
  | element (id : ElementId)
  | node (id : NodeId)
  | foreign (value : Value)
  deriving Repr, Inhabited

/-- A map from keys to entries. -/
abbrev Index := Ledger String Entry

/-! ## Documentation sets -/

/-- The number of a documentation set. -/
structure SetId where
  /-- Its row. -/
  row : Nat
  deriving DecidableEq, Repr, Inhabited

/-- What a set that describes source code has. -/
structure CodeBase where
  /-- The files, by path. -/
  files : Ledger String ElementId
  /-- The root of its namespaces. -/
  spaceRoot : NodeId
  /-- The root of its packages. -/
  packageRoot : NodeId
  deriving DecidableEq, Repr, Inhabited

/-- A documentation set. -/
structure DocSet where
  /-- The name. -/
  name : String
  /-- The settings. -/
  settings : Ledger String Value
  /-- The indexes, by name. -/
  indexes : Ledger String Index
  /-- What it has if it describes source code. -/
  code : Option CodeBase
  deriving Repr, Inhabited

/-! ## The store -/

/-- Everything that a build works on. -/
structure Store where
  /-- The elements. -/
  elements : Table Element
  /-- The nodes. -/
  nodes : Table Node
  /-- The documentation sets. -/
  sets : Table DocSet
  /-- The journal. -/
  journal : Journal
  deriving Inhabited

namespace Store

/-- A store with nothing in it but a journal. -/
def empty (journal : Journal) : Store := ⟨.empty, .empty, .empty, journal⟩

/-! ### Rows -/

/-- An element. -/
def element (s : Store) (e : ElementId) : Element := s.elements.get e.row

/-- A node. -/
def node (s : Store) (n : NodeId) : Node := s.nodes.get n.row

/-- A documentation set. -/
def docSet (s : Store) (d : SetId) : DocSet := s.sets.get d.row

/-- Changes an element. -/
def updateElement (s : Store) (e : ElementId) (f : Element → Element) : Store :=
  { s with elements := s.elements.modify e.row f }

/-- Changes a node. -/
def updateNode (s : Store) (n : NodeId) (f : Node → Node) : Store :=
  { s with nodes := s.nodes.modify n.row f }

/-- Changes a documentation set. -/
def updateSet (s : Store) (d : SetId) (f : DocSet → DocSet) : Store :=
  { s with sets := s.sets.modify d.row f }

/-- Adds an element. -/
def addElement (s : Store) (e : Element) : Store × ElementId :=
  ({ s with elements := s.elements.push e }, ⟨s.elements.size⟩)

/-- Adds a node. -/
def addNode (s : Store) (n : Node) : Store × NodeId :=
  ({ s with nodes := s.nodes.push n }, ⟨s.nodes.size⟩)

/-- Adds a documentation set. -/
def addSet (s : Store) (d : DocSet) : Store × SetId :=
  ({ s with sets := s.sets.push d }, ⟨s.sets.size⟩)

/-- Makes a logger in the journal. -/
def enroll (s : Store) (logger : String) : Store := { s with journal := s.journal.enroll logger }

/-- Records a message in the journal. -/
def record (s : Store) (logger : String) (level : Level) (text : String) : Store :=
  { s with journal := s.journal.record logger level text }

/-! ### Elements and their members -/

/-- The path of an element's namespace, whether it is given as text or bound to a node. -/
def spacePath (s : Store) (e : ElementId) : String :=
  match (s.element e).space with
  | .path text => text
  | .node n => (s.node n).path

/-- Files a member under the kind it has now. -/
def addMember (s : Store) (parent member : ElementId) : Store :=
  s.updateElement parent fun p => { p with members := p.members.add (s.element member).kind member }

/-- The members of a kind, in order. -/
def membersOf (s : Store) (e : ElementId) (kind : Kind) : List ElementId :=
  (s.element e).members.ofKind kind

/-! ### Nodes -/

/-- Hangs a node below another under a key. -/
def addChild (s : Store) (parent : NodeId) (key : String) (child : NodeId) : Store :=
  (s.updateNode child fun n => { n with parent := some parent }).updateNode parent
    fun n => { n with children := n.children.put key child }

/-- The nodes above a node, nearest first, up to a number of them. -/
def ancestorsWithin (s : Store) : Nat → NodeId → List NodeId
  | 0, _ => []
  | bound + 1, n =>
    match (s.node n).parent with
    | none => []
    | some parent => parent :: ancestorsWithin s bound parent

/-- The nodes above a node, nearest first. -/
def ancestors (s : Store) (n : NodeId) : List NodeId := s.ancestorsWithin s.nodes.size n

/-- Files an element at a node, under a kind that the node holds. -/
def fileAt (s : Store) (n : NodeId) (kind : Kind) (e : ElementId) : Except Misfit Store :=
  match (s.node n).collection kind with
  | .ok _ => .ok (s.updateNode n fun node => { node with members := node.members.add kind e })
  | .error m => .error m

/-! ### Indexes -/

/-- The index with a name, if there is one. -/
def index? (s : Store) (d : SetId) (name : String) : Option Index := (s.docSet d).indexes.get? name

/-- The index with a name; an absent one is empty. -/
def index (s : Store) (d : SetId) (name : String) : Index := (s.index? d name).getD .empty

/-- Installs an index under a name. -/
def setIndex (s : Store) (d : SetId) (name : String) (index : Index) : Store :=
  s.updateSet d fun set => { set with indexes := set.indexes.put name index }

/-- Installs an index unless one is there. -/
def openIndex (s : Store) (d : SetId) (name : String) (index : Index) : Store :=
  match s.index? d name with
  | some _ => s
  | none => s.setIndex d name index

/-- Writes one entry of an index. -/
def putEntry (s : Store) (d : SetId) (name key : String) (entry : Entry) : Store :=
  s.setIndex d name ((s.index d name).put key entry)

/-! ### Documentation sets -/

/-- Adds a set that describes no source code. -/
def addGuide (s : Store) (name : String) (settings : Ledger String Value) : Store × SetId :=
  s.addSet ⟨name, settings, .empty, none⟩

/-- Adds a set that describes source code, with roots of its own. -/
def addCodeSet (s : Store) (name : String) (settings : Ledger String Value) : Store × SetId :=
  let (s, spaceRoot) := s.addNode .spaceRoot
  let (s, packageRoot) := s.addNode .packageRoot
  s.addSet ⟨name, settings, .empty, some ⟨.empty, spaceRoot, packageRoot⟩⟩

/-- The files of a set, by path; none if it describes no source code. -/
def files (s : Store) (d : SetId) : Ledger String ElementId :=
  match (s.docSet d).code with
  | some code => code.files
  | none => .empty

/-- Changes what a set has if it describes source code. -/
def updateCode (s : Store) (d : SetId) (f : CodeBase → CodeBase) : Store :=
  s.updateSet d fun set => { set with code := set.code.map f }

/-- Adds a file under its path; an earlier one with the same path gives way to it. -/
def addFile (s : Store) (d : SetId) (e : ElementId) : Store :=
  match (s.element e).file with
  | some data => s.updateCode d fun code => { code with files := code.files.put data.path e }
  | none => s

/-- Takes the file at a path out. -/
def removeFile (s : Store) (d : SetId) (path : String) : Store :=
  s.updateCode d fun code => { code with files := code.files.erase path }

/-- Writes a setting. -/
def putSetting (s : Store) (d : SetId) (name : String) (value : Value) : Store :=
  s.updateSet d fun set => { set with settings := set.settings.put name value }

end Store

end Docset
