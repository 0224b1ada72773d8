/-
  What a build reads and never writes.

  Passes bind elements and drop source text; all else about elements, and the files of the set, they
  only read.  `SameInput d s t` says that two stores agree on that part.  Which elements are declared,
  under which kind, with which tags, are functions of it (`SameInput.declared`, `SameInput.packaged`,
  `SameInput.packageName`), so every pass finds what the one before found.

  Callers promise that elements are filed under the kind they have (`FiledByKind`) and that what is
  listed as a file is one (`FilesAreFiles`).  These promises are part of the input too.  That an element
  refers to no node that was never made (`Resolved`) goes without saying where nodes are handed out as
  they are made; here, where they are numbers, it is said.
-/
import Docset.Proofs.Store
import Docset.Store.Source

namespace Docset

/-- The part of an element that no pass changes: all but its bindings and its source text. -/
def Element.fixed (e : Element) : Element :=
  { e.withoutSource with space := .path "", package := .unset }

namespace Store

/-- The stores hold the same files for a set, and elements that differ in bindings and source text
    alone. -/
structure SameInput (d : SetId) (s t : Store) : Prop where
  element : ∀ e, (t.element e).fixed = (s.element e).fixed
  code : (t.docSet d).code.map CodeBase.files = (s.docSet d).code.map CodeBase.files

namespace SameInput

variable {d : SetId} {s t u : Store}

theorem refl (d : SetId) (s : Store) : SameInput d s s := ⟨fun _ => rfl, rfl⟩

theorem trans (hst : SameInput d s t) (htu : SameInput d t u) : SameInput d s u :=
  ⟨fun e => (htu.element e).trans (hst.element e), htu.code.trans hst.code⟩

/-- A change of nodes and of the journal leaves the input alone. -/
theorem of_eq (helements : t.elements = s.elements) (hsets : t.sets = s.sets) : SameInput d s t := by
  refine ⟨fun e => ?_, ?_⟩
  · rw [Store.element, Store.element, helements]
  · rw [Store.docSet, Store.docSet, hsets]

theorem record (s : Store) (d : SetId) (logger : String) (level : Level) (text : String) :
    SameInput d s (s.record logger level text) :=
  of_eq rfl rfl

theorem setIndex (s : Store) (d : SetId) (name : String) (index : Index) :
    SameInput d s (s.setIndex d name index) := by
  refine ⟨fun _ => rfl, ?_⟩
  rw [Store.setIndex, docSet_updateSet]

theorem putEntry (s : Store) (d : SetId) (name key : String) (entry : Entry) :
    SameInput d s (s.putEntry d name key entry) :=
  setIndex s d name _

theorem openIndex (s : Store) (d : SetId) (name : String) (index : Index) :
    SameInput d s (s.openIndex d name index) := by
  rw [Store.openIndex]
  split
  · exact refl d s
  · exact setIndex s d name index

theorem updateCode (s : Store) (d : SetId) {f : CodeBase → CodeBase}
    (hf : ∀ code, (f code).files = code.files) : SameInput d s (s.updateCode d f) := by
  refine ⟨fun _ => rfl, ?_⟩
  rw [Store.updateCode, docSet_updateSet, Option.map_map]
  cases (s.docSet d).code with
  | none => rfl
  | some code => exact congrArg some (hf code)

/-- Binding an element, or dropping its source text, leaves the input alone. -/
theorem updateElement (s : Store) (d : SetId) (e : ElementId) {f : Element → Element}
    (hf : ∀ x, (f x).fixed = x.fixed) : SameInput d s (s.updateElement e f) := by
  refine ⟨fun x => ?_, rfl⟩
  rw [element_updateElement]
  split
  · exact hf _
  · rfl

/-! ## What is a function of the input -/

theorem kind (h : SameInput d s t) (e : ElementId) : (t.element e).kind = (s.element e).kind := by
  show (t.element e).fixed.kind = (s.element e).fixed.kind
  rw [h.element]

theorem members (h : SameInput d s t) (e : ElementId) :
    (t.element e).members = (s.element e).members := by
  show (t.element e).fixed.members = (s.element e).fixed.members
  rw [h.element]

theorem packageName (h : SameInput d s t) (e : ElementId) :
    (t.element e).packageName = (s.element e).packageName := by
  have htags : (t.element e).tags = (s.element e).tags := by
    show (t.element e).fixed.tags = (s.element e).fixed.tags
    rw [h.element]
  rw [Element.packageName, Element.packageName, Element.packageText, Element.packageText]
  rw [Element.firstTag, Element.firstTag, Element.firstTag, Element.firstTag, htags]

theorem files (h : SameInput d s t) : t.files d = s.files d := by
  have hfiles : ∀ u : Store, u.files d = ((u.docSet d).code.map CodeBase.files).getD .empty := by
    intro u
    rw [Store.files]
    cases (u.docSet d).code <;> rfl
  rw [hfiles, hfiles, h.code]

theorem isSome_code (h : SameInput d s t) :
    (t.docSet d).code.isSome = (s.docSet d).code.isSome := by
  rw [← Option.isSome_map, h.code, Option.isSome_map]

theorem membersOf (h : SameInput d s t) (e : ElementId) (kind : Kind) :
    t.membersOf e kind = s.membersOf e kind := by
  rw [Store.membersOf, Store.membersOf, h.members]

theorem declaredIn (h : SameInput d s t) (kinds : List Kind) (file : ElementId) :
    t.declaredIn kinds file = s.declaredIn kinds file := by
  rw [Store.declaredIn, Store.declaredIn]
  exact congrArg (kinds.flatMap ·) (funext fun kind => h.membersOf file kind)

theorem declared (h : SameInput d s t) (kinds : List Kind) : t.declared d kinds = s.declared d kinds := by
  rw [Store.declared, Store.declared, h.files]
  exact congrArg (List.flatMap · _) (funext fun file => h.declaredIn kinds file)

theorem packaged (h : SameInput d s t) : t.packaged d = s.packaged d := by
  rw [Store.packaged, Store.packaged, h.files]
  exact congrArg (List.flatMap · _)
    (funext fun file => congrArg (file :: ·) (h.declaredIn packagedKinds file))

end SameInput

/-! ## Changes that no build notices -/

/-- The later store differs in journal, settings and source text alone. -/
structure Inert (d : SetId) (s t : Store) : Prop where
  input : SameInput d s t
  nodes : t.nodes = s.nodes
  index : ∀ name, t.index? d name = s.index? d name
  code : (t.docSet d).code = (s.docSet d).code
  space : ∀ e, (t.element e).space = (s.element e).space
  package : ∀ e, (t.element e).package = (s.element e).package

namespace Inert

variable {d : SetId} {s t u : Store}

theorem refl (d : SetId) (s : Store) : Inert d s s :=
  ⟨.refl d s, rfl, fun _ => rfl, rfl, fun _ => rfl, fun _ => rfl⟩

theorem trans (hst : Inert d s t) (htu : Inert d t u) : Inert d s u where
  input := hst.input.trans htu.input
  nodes := htu.nodes.trans hst.nodes
  index := fun name => (htu.index name).trans (hst.index name)
  code := htu.code.trans hst.code
  space := fun e => (htu.space e).trans (hst.space e)
  package := fun e => (htu.package e).trans (hst.package e)

theorem record (s : Store) (d : SetId) (logger : String) (level : Level) (text : String) :
    Inert d s (s.record logger level text) :=
  ⟨.record s d logger level text, rfl, fun _ => rfl, rfl, fun _ => rfl, fun _ => rfl⟩

theorem putSettings (s : Store) (d : SetId) (f : Ledger String Value → Ledger String Value) :
    Inert d s (s.updateSet d fun set => { set with settings := f set.settings }) := by
  refine ⟨⟨fun _ => rfl, ?_⟩, rfl, fun name => ?_, ?_, fun _ => rfl, fun _ => rfl⟩
  · rw [docSet_updateSet]
  · rw [Store.index?, docSet_updateSet]
    rfl
  · rw [docSet_updateSet]

theorem dropSources (s : Store) (d : SetId) (files : List ElementId) :
    Inert d s (s.dropSources files) := by
  induction files generalizing s with
  | nil => exact refl d s
  | cons file rest ih =>
    have hfixed : ∀ e : Element, e.withoutSource.fixed = e.fixed := by
      intro e
      rw [Element.fixed, Element.fixed, Element.withoutSource, Element.withoutSource]
      cases e.file with
      | none => rfl
      | some data => rfl
    have hdrop : Inert d s (s.updateElement file Element.withoutSource) := by
      refine ⟨.updateElement s d file hfixed, rfl, fun _ => rfl, rfl, fun e => ?_, fun e => ?_⟩
      · rw [element_updateElement]
        split
        · rfl
        · rfl
      · rw [element_updateElement]
        split
        · rfl
        · rfl
    exact hdrop.trans (ih _)

end Inert

/-! ## What callers promise -/

/-- Whether the set describes source code. -/
def DescribesCode (s : Store) (d : SetId) : Prop := (s.docSet d).code.isSome = true

/-- Every element that a file declares has the kind that it is filed under. -/
def FiledByKind (s : Store) (d : SetId) : Prop :=
  ∀ file ∈ (s.files d).values, ∀ kind ∈ Tree.spaces.kinds, ∀ e ∈ s.membersOf file kind,
    (s.element e).kind = kind

/-- What is listed as a file has the kind of a file. -/
def FilesAreFiles (s : Store) (d : SetId) : Prop :=
  ∀ file ∈ (s.files d).values, (s.element file).kind = .file

/-- If the element's namespace is given as a node, the node was made. -/
def Resolves (s : Store) (e : ElementId) : Prop :=
  ∀ n, (s.element e).space = .node n → n.row < s.nodes.size

/-- Every declared element refers to a namespace that was made, or names one by text. -/
def Resolved (s : Store) (d : SetId) : Prop := ∀ e ∈ s.declared d Tree.spaces.kinds, s.Resolves e

instance (s : Store) (d : SetId) : Decidable (s.DescribesCode d) :=
  inferInstanceAs (Decidable ((s.docSet d).code.isSome = true))

instance (s : Store) (d : SetId) : Decidable (s.FiledByKind d) :=
  inferInstanceAs (Decidable (∀ file ∈ (s.files d).values, ∀ kind ∈ Tree.spaces.kinds,
    ∀ e ∈ s.membersOf file kind, (s.element e).kind = kind))

instance (s : Store) (d : SetId) : Decidable (s.FilesAreFiles d) :=
  inferInstanceAs (Decidable (∀ file ∈ (s.files d).values, (s.element file).kind = .file))

instance (s : Store) (e : ElementId) : Decidable (s.Resolves e) :=
  match h : (s.element e).space with
  | .path _ => .isTrue (by simp [Resolves, h])
  | .node n => decidable_of_iff (n.row < s.nodes.size) (by simp [Resolves, h])

instance (s : Store) (d : SetId) : Decidable (s.Resolved d) :=
  inferInstanceAs (Decidable (∀ e ∈ s.declared d Tree.spaces.kinds, s.Resolves e))

/-- A set that describes one file, with the given elements declared in it. -/
def ofDeclared (es : List Element) : Store :=
  let (s, d) := (Store.empty default).addCodeSet "api" .empty
  let (s, file) := s.addElement (.declareFile ⟨"a.php", "", none⟩ "" "" (.path "") .unset)
  let s := es.foldl (fun s e => (s.addElement e).1.addMember file (s.addElement e).2) s
  s.addFile d file

section Promises

variable {d : SetId} {s t : Store}

theorem SameInput.describesCode (h : SameInput d s t) (hs : s.DescribesCode d) :
    t.DescribesCode d :=
  h.isSome_code.trans hs

theorem SameInput.filedByKind (h : SameInput d s t) (hs : s.FiledByKind d) : t.FiledByKind d := by
  intro file hfile kind hkind e he
  rw [h.files] at hfile
  rw [h.membersOf] at he
  rw [h.kind]
  exact hs file hfile kind hkind e he

theorem SameInput.filesAreFiles (h : SameInput d s t) (hs : s.FilesAreFiles d) :
    t.FilesAreFiles d := by
  intro file hfile
  rw [h.files] at hfile
  rw [h.kind]
  exact hs file hfile

theorem FiledByKind.kind_of_mem_declaredIn (hs : s.FiledByKind d) {file : ElementId}
    (hfile : file ∈ (s.files d).values) {kinds : List Kind}
    (hkinds : ∀ kind ∈ kinds, kind ∈ Tree.spaces.kinds) {e : ElementId}
    (he : e ∈ s.declaredIn kinds file) : (s.element e).kind ∈ kinds := by
  obtain ⟨kind, hkind, he⟩ := List.mem_flatMap.1 he
  rw [hs file hfile kind (hkinds kind hkind) e he]
  exact hkind

/-- A declared element has a kind that namespaces hold. -/
theorem FiledByKind.kind_of_mem_declared (hs : s.FiledByKind d) {e : ElementId}
    (he : e ∈ s.declared d Tree.spaces.kinds) : (s.element e).kind ∈ Tree.spaces.kinds := by
  obtain ⟨file, hfile, he⟩ := List.mem_flatMap.1 he
  exact hs.kind_of_mem_declaredIn hfile (fun _ hkind => hkind) he

/-- A file, and an element declared for packages, has a kind that packages hold. -/
theorem FiledByKind.kind_of_mem_packaged (hs : s.FiledByKind d) (hfiles : s.FilesAreFiles d)
    {e : ElementId} (he : e ∈ s.packaged d) : (s.element e).kind ∈ Tree.packages.kinds := by
  obtain ⟨file, hfile, he⟩ := List.mem_flatMap.1 he
  rcases List.mem_cons.1 he with rfl | he
  · rw [hfiles e hfile]
    decide
  · have hspaces : ∀ kind ∈ packagedKinds, kind ∈ Tree.spaces.kinds := by decide
    have hpackages : ∀ kind ∈ packagedKinds, kind ∈ Tree.packages.kinds := by decide
    exact hpackages _ (hs.kind_of_mem_declaredIn hfile hspaces he)

end Promises

end Store

end Docset
