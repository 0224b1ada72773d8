/-
  References to nodes.

  Elements, nodes and sets refer to nodes by number.  `Refers` says of a sort of data which nodes it refers
  to and what it is with other numbers for them; its laws say that only the numbers that are referred to
  count.  From then on a reference is a reference, wherever it stands.

  A store KNOWS data if it has made every node that the data refers to (`Store.Knows`), and it is WHOLE for
  a set if it knows all its elements, all its nodes, and the indexes and roots of the set (`Store.Whole`).
  Where nodes are handed out as they are made, this goes without saying; here, where they are numbers, it is
  said.  A reference is written in a few ways only: a child is hung below a node, a node is entered in an
  index, a root is set, an element is bound.  Each keeps a store whole if the nodes were made
  (`Whole.addChild`, `Whole.enter` and so on).
-/
import Docset.Proofs.Twins

namespace Docset

/-! ## Data with references -/

/-- Data that refers to nodes. -/
class Refers (α : Type) where
  /-- The nodes that it refers to. -/
  refs : α → List NodeId
  /-- The data with other numbers for the nodes. -/
  renumber : (NodeId → NodeId) → α → α
  renumber_congr : ∀ {f g : NodeId → NodeId} {a : α}, (∀ n ∈ refs a, f n = g n) →
    renumber f a = renumber g a
  renumber_renumber : ∀ (f g : NodeId → NodeId) (a : α), renumber f (renumber g a) = renumber (f ∘ g) a
  renumber_id : ∀ a : α, renumber id a = a

open Refers

/-- Numbers that stay leave the data as it is. -/
theorem Refers.renumber_eq_self {α : Type} [Refers α] {f : NodeId → NodeId} {a : α}
    (h : ∀ n ∈ refs a, f n = n) : renumber f a = a := by
  rw [renumber_congr h]
  exact renumber_id a

instance : Refers NodeId where
  refs n := [n]
  renumber f n := f n
  renumber_congr h := h _ List.mem_cons_self
  renumber_renumber _ _ _ := rfl
  renumber_id _ := rfl

section Containers

variable {α κ : Type} [Refers α]

instance : Refers (Option α) where
  refs
    | some a => refs a
    | none => []
  renumber f := Option.map (renumber f)
  renumber_congr := by
    rintro f g (_ | a) h
    · rfl
    · exact congrArg some (renumber_congr h)
  renumber_renumber := by
    rintro f g (_ | a)
    · rfl
    · exact congrArg some (renumber_renumber f g a)
  renumber_id := by
    rintro (_ | a)
    · rfl
    · exact congrArg some (renumber_id a)

instance : Refers (Ledger κ α) where
  refs l := l.values.flatMap refs
  renumber f l := ⟨l.entries.map fun pair => (pair.1, renumber f pair.2)⟩
  renumber_congr := by
    rintro f g ⟨pairs⟩ h
    refine congrArg Ledger.mk (List.map_congr_left fun pair hpair => ?_)
    refine congrArg (pair.1, ·) (renumber_congr fun n hn => h n ?_)
    exact List.mem_flatMap.2 ⟨pair.2, List.mem_map.2 ⟨pair, hpair, rfl⟩, hn⟩
  renumber_renumber := by
    rintro f g ⟨pairs⟩
    refine congrArg Ledger.mk ?_
    rw [List.map_map]
    exact List.map_congr_left fun pair _ => congrArg (pair.1, ·) (renumber_renumber f g pair.2)
  renumber_id := by
    rintro ⟨pairs⟩
    refine congrArg Ledger.mk ?_
    rw [List.map_congr_left fun pair _ => congrArg (pair.1, ·) (renumber_id pair.2)]
    exact List.map_id' pairs

/-- What a ledger refers to, one of its values refers to. -/
theorem Ledger.mem_refs {l : Ledger κ α} {n : NodeId} : n ∈ refs l ↔ ∃ a ∈ l.values, n ∈ refs a :=
  List.mem_flatMap

variable [DecidableEq κ]

/-- What a written ledger refers to, the ledger did or the new value does. -/
theorem Ledger.mem_refs_put {l : Ledger κ α} {key : κ} {a : α} {n : NodeId}
    (hn : n ∈ refs (l.put key a)) : n ∈ refs l ∨ n ∈ refs a := by
  obtain ⟨b, hb, hn⟩ := Ledger.mem_refs.1 hn
  obtain ⟨pair, hpair, rfl⟩ := List.mem_map.1 hb
  -- By induction on the pairs, as a write goes over them: each is an old one or the new one.
  have hwrite : ∀ pairs : List (κ × α), pair ∈ Ledger.write pairs key a → pair ∈ pairs ∨ pair.2 = a := by
    intro pairs
    induction pairs with
    | nil =>
      intro hmem
      rw [List.mem_singleton.1 hmem]
      exact Or.inr rfl
    | cons first rest ih =>
      obtain ⟨k, c⟩ := first
      intro hmem
      rw [Ledger.write] at hmem
      split at hmem
      · rcases List.mem_cons.1 hmem with rfl | hmem
        · exact Or.inr rfl
        · exact Or.inl (List.mem_cons_of_mem _ hmem)
      · rcases List.mem_cons.1 hmem with rfl | hmem
        · exact Or.inl List.mem_cons_self
        · exact (ih hmem).imp_left (List.mem_cons_of_mem _)
  rcases hwrite l.entries hpair with hold | hnew
  · exact Or.inl (Ledger.mem_refs.2 ⟨pair.2, List.mem_map.2 ⟨pair, hold, rfl⟩, hn⟩)
  · rw [hnew] at hn
    exact Or.inr hn

/-- What a ledger refers to after many writes, it did before or one of the new values does. -/
theorem Ledger.mem_refs_putAll {l : Ledger κ α} {pairs : List (κ × α)} {n : NodeId}
    (hn : n ∈ refs (l.putAll pairs)) : n ∈ refs l ∨ ∃ pair ∈ pairs, n ∈ refs pair.2 := by
  induction pairs generalizing l with
  | nil => exact Or.inl hn
  | cons pair rest ih =>
    rcases ih hn with hput | ⟨later, hlater, hn⟩
    · exact (Ledger.mem_refs_put hput).imp_right fun hn => ⟨pair, List.mem_cons_self, hn⟩
    · exact Or.inr ⟨later, List.mem_cons_of_mem _ hlater, hn⟩

/-- What the value under a key refers to, the ledger refers to. -/
theorem Ledger.mem_refs_of_get? {l : Ledger κ α} {key : κ} {a : α} (hget : l.get? key = some a)
    {n : NodeId} (hn : n ∈ refs a) : n ∈ refs l :=
  Ledger.mem_refs.2 ⟨a, List.mem_map.2 ⟨(key, a), Ledger.mem_of_find_eq_some hget, rfl⟩, hn⟩

omit [DecidableEq κ] in
/-- Ledgers whose values belong together as data and renumbered data are so themselves. -/
theorem Ledger.Alike.eq_renumber {R : α → α → Prop} {f : NodeId → NodeId} {l₁ l₂ : Ledger κ α}
    (h : Ledger.Alike R l₁ l₂) (hR : ∀ a b, R a b → b = renumber f a) : l₂ = renumber f l₁ := by
  obtain ⟨xs⟩ := l₁
  obtain ⟨ys⟩ := l₂
  have hentries : List.Forall₂ (fun x y => x.1 = y.1 ∧ R x.2 y.2) xs ys := h
  refine congrArg Ledger.mk ?_
  clear h
  induction hentries with
  | nil => rfl
  | @cons x y xs ys hxy _ ih =>
    obtain ⟨k, a⟩ := x
    obtain ⟨k', b⟩ := y
    obtain ⟨rfl, hab⟩ := hxy
    rw [ih, hR a b hab]
    rfl

end Containers

/-! ### The data of a store -/

instance : Refers SpaceRef where
  refs
    | .node n => [n]
    | .path _ => []
  renumber f
    | .node n => .node (f n)
    | .path text => .path text
  renumber_congr := by
    rintro f g (text | n) h
    · rfl
    · exact congrArg SpaceRef.node (h n List.mem_cons_self)
  renumber_renumber := by
    rintro f g (text | n)
    · rfl
    · rfl
  renumber_id := by
    rintro (text | n)
    · rfl
    · rfl

instance : Refers PackageRef where
  refs
    | .node n => [n]
    | _ => []
  renumber f
    | .node n => .node (f n)
    | other => other
  renumber_congr := by
    rintro f g (_ | text | n) h
    · rfl
    · rfl
    · exact congrArg PackageRef.node (h n List.mem_cons_self)
  renumber_renumber := by
    rintro f g (_ | text | n)
    · rfl
    · rfl
    · rfl
  renumber_id := by
    rintro (_ | text | n)
    · rfl
    · rfl
    · rfl

instance : Refers Entry where
  refs
    | .node n => [n]
    | _ => []
  renumber f
    | .node n => .node (f n)
    | other => other
  renumber_congr := by
    rintro f g (e | n | value) h
    · rfl
    · exact congrArg Entry.node (h n List.mem_cons_self)
    · rfl
  renumber_renumber := by
    rintro f g (e | n | value)
    · rfl
    · rfl
    · rfl
  renumber_id := by
    rintro (e | n | value)
    · rfl
    · rfl
    · rfl

/-- An element refers to its namespace and to its package. -/
instance : Refers Element where
  refs e := refs e.space ++ refs e.package
  renumber f e := { e with space := renumber f e.space, package := renumber f e.package }
  renumber_congr := by
    intro f g e h
    rw [renumber_congr fun n hn => h n (List.mem_append_left _ hn),
      renumber_congr fun n hn => h n (List.mem_append_right _ hn)]
  renumber_renumber := by
    intro f g e
    rw [renumber_renumber, renumber_renumber]
  renumber_id := by
    intro e
    rw [renumber_id, renumber_id]

/-- A node refers to its parent and to its children. -/
instance : Refers Node where
  refs n := refs n.parent ++ refs n.children
  renumber f n := { n with parent := renumber f n.parent, children := renumber f n.children }
  renumber_congr := by
    intro f g x h
    rw [renumber_congr fun n hn => h n (List.mem_append_left _ hn),
      renumber_congr fun n hn => h n (List.mem_append_right _ hn)]
  renumber_renumber := by
    intro f g x
    rw [renumber_renumber, renumber_renumber]
  renumber_id := by
    intro x
    rw [renumber_id, renumber_id]

/-- What describes source code refers to the roots of its trees. -/
instance : Refers CodeBase where
  refs code := [code.spaceRoot, code.packageRoot]
  renumber f code := { code with spaceRoot := f code.spaceRoot, packageRoot := f code.packageRoot }
  renumber_congr := by
    intro f g code h
    rw [h _ List.mem_cons_self, h _ (List.mem_cons_of_mem _ List.mem_cons_self)]
  renumber_renumber _ _ _ := rfl
  renumber_id _ := rfl

/-! ## Whole stores -/

namespace Store

/-- The store has made all nodes that the data refers to. -/
def Knows (s : Store) {α : Type} [Refers α] (a : α) : Prop := ∀ n ∈ refs a, n.row < s.nodes.size

instance (s : Store) {α : Type} [Refers α] (a : α) : Decidable (s.Knows a) :=
  inferInstanceAs (Decidable (∀ n ∈ refs a, n.row < s.nodes.size))

/-- No reference of an element, of a node or of the set leads nowhere. -/
structure Whole (s : Store) (d : SetId) : Prop where
  element : ∀ e, s.Knows (s.element e)
  node : ∀ n, s.Knows (s.node n)
  index : ∀ name, s.Knows (s.index? d name)
  code : s.Knows (s.docSet d).code

/-- Rows that were never written refer to nothing, and neither do indexes that are not there. -/
theorem whole_iff {s : Store} {d : SetId} : s.Whole d ↔
    (∀ row < s.elements.size, s.Knows (s.element ⟨row⟩)) ∧
      (∀ row < s.nodes.size, s.Knows (s.node ⟨row⟩)) ∧
      (∀ name ∈ (s.docSet d).indexes.keys, s.Knows (s.index? d name)) ∧ s.Knows (s.docSet d).code := by
  constructor
  · intro h
    exact ⟨fun row _ => h.element ⟨row⟩, fun row _ => h.node ⟨row⟩, fun name _ => h.index name, h.code⟩
  · rintro ⟨helement, hnode, hindex, hcode⟩
    refine ⟨fun e => ?_, fun n => ?_, fun name => ?_, hcode⟩
    · by_cases hrow : e.row < s.elements.size
      · exact helement e.row hrow
      · rw [Store.element, Table.get_of_size_le (Nat.le_of_not_lt hrow)]
        intro n hn
        cases hn
    · by_cases hrow : n.row < s.nodes.size
      · exact hnode n.row hrow
      · rw [Store.node_of_size_le (Nat.le_of_not_lt hrow)]
        intro m hm
        cases hm
    · by_cases hname : name ∈ (s.docSet d).indexes.keys
      · exact hindex name hname
      · rw [Store.index?, Ledger.get?_eq_none_iff.2 hname]
        intro n hn
        cases hn

instance (s : Store) (d : SetId) : Decidable (s.Whole d) := decidable_of_iff _ whole_iff.symm

end Store

/-! ## Single changes -/

namespace Store

variable {s t u : Store} {d : SetId} {n m : NodeId}

/-- What is known stays known when nodes are made. -/
theorem Knows.mono {α : Type} [Refers α] {a : α} (h : s.Knows a) (hle : s.nodes.size ≤ t.nodes.size) :
    t.Knows a := fun n hn => Nat.lt_of_lt_of_le (h n hn) hle

/-- An index that holds a node that was made, and nothing else. -/
theorem knows_root (hn : n.row < s.nodes.size) (key : String) :
    s.Knows (Ledger.empty.put key (.node n) : Index) := by
  intro m hm
  rw [List.mem_singleton.1 hm]
  exact hn

/-- An index of elements refers to no node. -/
theorem not_mem_refs_indexOf (s : Store) (es : List ElementId) (n : NodeId) : n ∉ refs (s.indexOf es) := by
  intro hn
  rcases Ledger.mem_refs_putAll hn with hn | ⟨pair, hpair, hn⟩
  · cases hn
  · obtain ⟨e, -, rfl⟩ := List.mem_map.1 hpair
    cases hn

theorem knows_indexOf (s t : Store) (es : List ElementId) : s.Knows (t.indexOf es) :=
  fun n hn => absurd hn (t.not_mem_refs_indexOf es n)

namespace Whole

variable (h : s.Whole d)

include h

theorem record (logger : String) (level : Level) (text : String) :
    (s.record logger level text).Whole d :=
  ⟨h.element, h.node, h.index, h.code⟩

/-- A new node may refer to all that was made before. -/
theorem addNode {x : Node} (hx : s.Knows x) : (s.addNode x).1.Whole d := by
  have hle : s.nodes.size ≤ (s.addNode x).1.nodes.size := by
    rw [size_addNode]
    exact Nat.le_succ _
  refine ⟨fun e => (h.element e).mono hle, fun n => ?_, fun name => (h.index name).mono hle,
    h.code.mono hle⟩
  rw [node_addNode]
  split
  · exact hx.mono hle
  · exact (h.node n).mono hle

theorem updateNode (hn : n.row < s.nodes.size) {f : Node → Node} (hf : s.Knows (f (s.node n))) :
    (s.updateNode n f).Whole d := by
  have hle : s.nodes.size ≤ (s.updateNode n f).nodes.size := Nat.le_of_eq (size_updateNode hn f).symm
  refine ⟨fun e => (h.element e).mono hle, fun m => ?_, fun name => (h.index name).mono hle,
    h.code.mono hle⟩
  rw [node_updateNode]
  split
  · rename_i hmn
    rw [hmn]
    exact hf.mono hle
  · exact (h.node m).mono hle

/-- A node that was made may be hung below another. -/
theorem addChild (hm : m.row < s.nodes.size) (hn : n.row < s.nodes.size) (key : String) :
    (s.addChild m key n).Whole d := by
  have hparent : (s.updateNode n fun x => { x with parent := some m }).Whole d := by
    refine h.updateNode hn fun x hx => ?_
    rcases List.mem_append.1 hx with hx | hx
    · rw [List.mem_singleton.1 hx]
      exact hm
    · exact h.node n x (List.mem_append_right _ hx)
  have hsize := size_updateNode hn fun x => { x with parent := some m }
  refine hparent.updateNode (hsize.symm ▸ hm) fun x hx => ?_
  rcases List.mem_append.1 hx with hx | hx
  · exact hparent.node m x (List.mem_append_left _ hx)
  · rcases Ledger.mem_refs_put hx with hx | hx
    · exact hparent.node m x (List.mem_append_right _ hx)
    · rw [List.mem_singleton.1 hx, hsize]
      exact hn

theorem setIndex (name : String) {index : Index} (hindex : s.Knows index) :
    (s.setIndex d name index).Whole d := by
  refine ⟨h.element, h.node, fun other => ?_, ?_⟩
  · rw [index?_setIndex]
    split
    · exact hindex
    · exact h.index other
  · rw [Store.setIndex, docSet_updateSet]
    exact h.code

/-- An index that is there is known, and an absent one is empty. -/
theorem knows_index (name : String) : s.Knows (s.index d name) := by
  have hindex := h.index name
  rw [Store.index]
  cases hi : s.index? d name with
  | none =>
    intro n hn
    cases hn
  | some i =>
    rw [hi] at hindex
    exact hindex

theorem putEntry (name key : String) {entry : Entry} (hentry : s.Knows entry) :
    (s.putEntry d name key entry).Whole d := by
  refine h.setIndex name fun n hn => ?_
  rcases Ledger.mem_refs_put hn with hn | hn
  · exact h.knows_index name n hn
  · exact hentry n hn

/-- A node that was made may be entered in an index. -/
theorem enter (name key : String) (hn : n.row < s.nodes.size) :
    (s.putEntry d name key (.node n)).Whole d := by
  refine h.putEntry name key fun m hm => ?_
  rw [List.mem_singleton.1 hm]
  exact hn

theorem openIndex (name : String) : (s.openIndex d name .empty).Whole d := by
  rcases s.openIndex_cases d name .empty with heq | heq
  · rw [heq]
    exact h
  · rw [heq]
    exact h.setIndex name fun n hn => by cases hn

/-- A node that was made may be the root of a tree. -/
theorem setRoot (tree : Tree) (hn : n.row < s.nodes.size) :
    (s.updateCode d (·.setRoot tree n)).Whole d := by
  refine ⟨h.element, h.node, fun name => ?_, ?_⟩
  · rw [index?_updateCode]
    exact h.index name
  · have hcode := h.code
    rw [Store.updateCode, docSet_updateSet]
    cases hsome : (s.docSet d).code with
    | none =>
      intro m hm
      cases hm
    | some code =>
      rw [hsome] at hcode
      have hroots : ∀ other, (code.root other).row < s.nodes.size := by
        intro other
        cases other with
        | spaces => exact hcode _ List.mem_cons_self
        | packages => exact hcode _ (List.mem_cons_of_mem _ List.mem_cons_self)
      have hroots' : ∀ other, ((code.setRoot tree n).root other).row < s.nodes.size := by
        intro other
        rw [CodeBase.root_setRoot]
        split
        · exact hn
        · exact hroots other
      intro m hm
      rcases List.mem_cons.1 hm with rfl | hm
      · exact hroots' .spaces
      · rw [List.mem_singleton.1 hm]
        exact hroots' .packages

theorem updateElement {e : ElementId} {f : Element → Element} (hf : s.Knows (f (s.element e))) :
    (s.updateElement e f).Whole d := by
  refine ⟨fun x => ?_, h.node, h.index, h.code⟩
  rw [element_updateElement]
  split
  · rename_i hx
    rw [hx]
    exact hf
  · exact h.element x

/-- An element may be bound to a node that was made. -/
theorem bindTo (e : ElementId) (tree : Tree) (hn : n.row < s.nodes.size) :
    (s.updateElement e (.bindTo tree n)).Whole d := by
  refine h.updateElement fun m hm => ?_
  cases tree with
  | spaces =>
    rcases List.mem_append.1 hm with hm | hm
    · rw [List.mem_singleton.1 hm]
      exact hn
    · exact h.element e m (List.mem_append_right _ hm)
  | packages =>
    rcases List.mem_append.1 hm with hm | hm
    · exact h.element e m (List.mem_append_left _ hm)
    · rw [List.mem_singleton.1 hm]
      exact hn

/-- Every namespace that a whole store names was made. -/
theorem resolved : s.Resolved d := by
  intro e _ n hn
  refine h.element e n (List.mem_append_left _ ?_)
  rw [hn]
  exact List.mem_cons_self

/-- Changes that no build notices keep a store whole. -/
theorem of_inert (hst : Inert d s t) : t.Whole d := by
  have hle : s.nodes.size ≤ t.nodes.size := Nat.le_of_eq (congrArg Table.size hst.nodes.symm)
  refine ⟨fun e n hn => ?_, fun n => ?_, fun name => ?_, ?_⟩
  · refine (h.element e).mono hle n ?_
    have hrefs : refs (t.element e) = refs (s.element e) := by
      show refs (t.element e).space ++ refs (t.element e).package = _
      rw [hst.space, hst.package]
      rfl
    exact hrefs ▸ hn
  · have hnode : t.node n = s.node n := by
      rw [Store.node, Store.node, hst.nodes]
    rw [hnode]
    exact (h.node n).mono hle
  · rw [hst.index]
    exact (h.index name).mono hle
  · rw [hst.code]
    exact h.code.mono hle

end Whole

/-- The later store is whole and has at least as many nodes. -/
structure WholeAfter (d : SetId) (s t : Store) : Prop where
  whole : t.Whole d
  le : s.nodes.size ≤ t.nodes.size

namespace WholeAfter

theorem of_size (hwhole : t.Whole d) (hsize : t.nodes.size = s.nodes.size) : WholeAfter d s t :=
  ⟨hwhole, Nat.le_of_eq hsize.symm⟩

theorem trans (hst : WholeAfter d s t) (htu : WholeAfter d t u) : WholeAfter d s u :=
  ⟨htu.whole, Nat.le_trans hst.le htu.le⟩

/-- Nodes stay made. -/
theorem row_lt (h : WholeAfter d s t) (hn : n.row < s.nodes.size) : n.row < t.nodes.size :=
  Nat.lt_of_lt_of_le hn h.le

end WholeAfter

end Store

end Docset
