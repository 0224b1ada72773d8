/-
  Two builds side by side.

  Builds hand out row numbers, so two builds that do the same on different stores come to different
  numbers.  What stays is the ORDER of making: a node of one build has a TWIN in the other, the node that
  was made there as the so-many-th since the build began.  Ledgers, nodes and entries are alike if they
  agree with numbers read as twins, the order of keys included.

  `Store.Alike` is what two stores have in common in the midst of two such builds: everything made since
  they began, and of what was there before only what has been made ANEW (`Fresh`): the indexes, the roots
  and the bindings that were written since.  The rest may differ at will.

  A build changes a store in a few ways, and if the same is done to two stores that are alike, they are
  alike again: `Store.Alike.addNode`, `Store.Alike.addChild`, `Store.Alike.putEntry` and so on.
-/
import Mathlib.Data.List.Forall2
import Docset.Proofs.Members

namespace Docset

/-! ## Twins -/

/-- Two builds, each of a set and from a first row on. -/
structure Pairing where
  /-- The set of the first build. -/
  set₁ : SetId
  /-- The first row that it gives out. -/
  base₁ : Nat
  /-- The set of the second build. -/
  set₂ : SetId
  /-- The first row that it gives out. -/
  base₂ : Nat

/-- The nodes are as many rows after the first row of their build. -/
def Pairing.Twins (w : Pairing) (n₁ n₂ : NodeId) : Prop :=
  w.base₁ ≤ n₁.row ∧ n₂.row + w.base₁ = n₁.row + w.base₂

theorem Pairing.Twins.eq_iff {w : Pairing} {n₁ n₂ m₁ m₂ : NodeId} (hn : w.Twins n₁ n₂)
    (hm : w.Twins m₁ m₂) : n₁ = m₁ ↔ n₂ = m₂ := by
  obtain ⟨i₁⟩ := n₁
  obtain ⟨i₂⟩ := n₂
  obtain ⟨j₁⟩ := m₁
  obtain ⟨j₂⟩ := m₂
  have hn₂ : i₂ + w.base₁ = i₁ + w.base₂ := hn.2
  have hm₂ : j₂ + w.base₁ = j₁ + w.base₂ := hm.2
  simp only [NodeId.mk.injEq]
  omega

/-! ## Ledgers -/

namespace Ledger

variable {κ α β : Type} {R : α → β → Prop}

/-- The ledgers have the same keys in the same order, and under them values that belong together. -/
def Alike (R : α → β → Prop) (l₁ : Ledger κ α) (l₂ : Ledger κ β) : Prop :=
  List.Forall₂ (fun x y => x.1 = y.1 ∧ R x.2 y.2) l₁.entries l₂.entries

namespace Alike

variable {l₁ : Ledger κ α} {l₂ : Ledger κ β} {a : α} {b : β}

theorem empty : Alike R (Ledger.empty : Ledger κ α) (Ledger.empty : Ledger κ β) := .nil

theorem values (h : Alike R l₁ l₂) : List.Forall₂ R l₁.values l₂.values := by
  rw [Ledger.values, Ledger.values, List.forall₂_map_left_iff, List.forall₂_map_right_iff]
  exact h.imp fun _ _ hxy => hxy.2

variable [DecidableEq κ]

theorem put (h : Alike R l₁ l₂) (key : κ) (hab : R a b) : Alike R (l₁.put key a) (l₂.put key b) := by
  obtain ⟨xs⟩ := l₁
  obtain ⟨ys⟩ := l₂
  have hentries : List.Forall₂ (fun x y => x.1 = y.1 ∧ R x.2 y.2) xs ys := h
  show List.Forall₂ _ (write xs key a) (write ys key b)
  clear h
  induction hentries with
  | nil => exact .cons ⟨rfl, hab⟩ .nil
  | @cons x y xs ys hxy hrest ih =>
    obtain ⟨k, a'⟩ := x
    obtain ⟨k', b'⟩ := y
    obtain ⟨rfl, hR⟩ := hxy
    rw [write, write]
    split
    · exact .cons ⟨rfl, hab⟩ hrest
    · exact .cons ⟨rfl, hR⟩ ih

theorem get? (h : Alike R l₁ l₂) (key : κ) : Option.Rel R (l₁.get? key) (l₂.get? key) := by
  obtain ⟨xs⟩ := l₁
  obtain ⟨ys⟩ := l₂
  have hentries : List.Forall₂ (fun x y => x.1 = y.1 ∧ R x.2 y.2) xs ys := h
  show Option.Rel R (find xs key) (find ys key)
  clear h
  induction hentries with
  | nil => exact .none
  | @cons x y xs ys hxy hrest ih =>
    obtain ⟨k, a'⟩ := x
    obtain ⟨k', b'⟩ := y
    obtain ⟨rfl, hR⟩ := hxy
    rw [find, find]
    split
    · exact .some hR
    · exact ih

/-- Writing one list of pairs into both keeps them alike. -/
theorem putAll {R : α → α → Prop} {l₁ l₂ : Ledger κ α} (h : Alike R l₁ l₂) {pairs : List (κ × α)}
    (hpairs : ∀ pair ∈ pairs, R pair.2 pair.2) : Alike R (l₁.putAll pairs) (l₂.putAll pairs) := by
  induction pairs generalizing l₁ l₂ with
  | nil => exact h
  | cons pair rest ih =>
    refine ih (h.put pair.1 (hpairs pair List.mem_cons_self)) fun pair hpair => ?_
    exact hpairs pair (List.mem_cons_of_mem _ hpair)

end Alike

end Ledger

/-! ## Nodes and entries -/

/-- The nodes are the same but for the numbers of those that they are linked to. -/
structure Node.Alike (R : NodeId → NodeId → Prop) (x₁ x₂ : Node) : Prop where
  role : x₁.role = x₂.role
  name : x₁.name = x₂.name
  path : x₁.path = x₂.path
  parent : Option.Rel R x₁.parent x₂.parent
  children : Ledger.Alike R x₁.children x₂.children
  members : x₁.members = x₂.members

namespace Node.Alike

variable {R : NodeId → NodeId → Prop} {x₁ x₂ : Node}

/-- A node by itself is like itself. -/
theorem single (role : Role) (name path : String) :
    Node.Alike R (Node.single role name path) (Node.single role name path) where
  role := rfl
  name := rfl
  path := rfl
  parent := .none
  children := .empty
  members := rfl

theorem tree (h : Node.Alike R x₁ x₂) : x₁.tree = x₂.tree := by
  rw [Node.tree, Node.tree, h.role]

theorem indexKey (h : Node.Alike R x₁ x₂) : x₁.indexKey = x₂.indexKey := by
  rw [Node.indexKey, Node.indexKey, h.path]

theorem isRoot (h : Node.Alike R x₁ x₂) : x₁.isRoot = x₂.isRoot := by
  rw [Node.isRoot, Node.isRoot, h.path]

theorem lineage (h : Node.Alike R x₁ x₂) : x₁.lineage = x₂.lineage := by
  have hkey : x₁.parentKey = x₂.parentKey := by
    rw [Node.parentKey, Node.parentKey, Node.parentPath, Node.parentPath, h.role, h.name, h.path]
  rw [Node.lineage, Node.lineage, hkey]

theorem isSome_parent (h : Node.Alike R x₁ x₂) : x₁.parent.isSome = x₂.parent.isSome := by
  have hparent := h.parent
  generalize x₁.parent = parent₁ at hparent ⊢
  generalize x₂.parent = parent₂ at hparent ⊢
  cases hparent with
  | none => rfl
  | some _ => rfl

end Node.Alike

/-- The entries are one element, or nodes that belong together. -/
inductive Entry.Alike (R : NodeId → NodeId → Prop) : Entry → Entry → Prop
  | element (e : ElementId) : Entry.Alike R (.element e) (.element e)
  | node {n₁ n₂ : NodeId} : R n₁ n₂ → Entry.Alike R (.node n₁) (.node n₂)

/-- Indexes that are alike list nodes that belong together, in the same order. -/
theorem Index.nodes_alike {R : NodeId → NodeId → Prop} {i₁ i₂ : Index}
    (h : Ledger.Alike (Entry.Alike R) i₁ i₂) : List.Forall₂ R (Index.nodes i₁) (Index.nodes i₂) := by
  have hvalues := h.values
  rw [Index.nodes, Index.nodes]
  generalize Ledger.values i₁ = values₁ at hvalues ⊢
  generalize Ledger.values i₂ = values₂ at hvalues ⊢
  induction hvalues with
  | nil => exact .nil
  | cons hentry _ ih =>
    cases hentry with
    | element e => exact ih
    | node hn => exact .cons hn ih

/-! ## Stores -/

/-- The root of a tree of a set. -/
def CodeBase.root (code : CodeBase) : Tree → NodeId
  | .spaces => code.spaceRoot
  | .packages => code.packageRoot

/-- The set with another root of a tree. -/
def CodeBase.setRoot (code : CodeBase) (tree : Tree) (n : NodeId) : CodeBase :=
  match tree with
  | .spaces => { code with spaceRoot := n }
  | .packages => { code with packageRoot := n }

theorem CodeBase.files_setRoot (code : CodeBase) (tree : Tree) (n : NodeId) :
    (code.setRoot tree n).files = code.files := by
  cases tree with
  | spaces => rfl
  | packages => rfl

theorem CodeBase.root_setRoot (code : CodeBase) (tree : Tree) (n : NodeId) (other : Tree) :
    (code.setRoot tree n).root other = if other = tree then n else code.root other := by
  cases tree with
  | spaces =>
    cases other with
    | spaces => rfl
    | packages => rfl
  | packages =>
    cases other with
    | spaces => rfl
    | packages => rfl

/-- What two builds have made anew so far. -/
structure Fresh where
  /-- The names of the indexes. -/
  indexes : List String
  /-- The trees whose roots are new. -/
  roots : List Tree
  /-- The elements that are bound, and to which tree. -/
  bound : List (Tree × ElementId)

/-- Nothing is made anew yet. -/
def Fresh.nothing : Fresh := ⟨[], [], []⟩

/-- **Alike**: the stores have the same nodes since the first rows of their builds, and what has been
    made anew is the same, with numbers of nodes read as twins. -/
structure Store.Alike (w : Pairing) (fresh : Fresh) (s₁ s₂ : Store) : Prop where
  /-- The nodes that are made next will be twins, so as many have been made. -/
  next : w.Twins ⟨s₁.nodes.size⟩ ⟨s₂.nodes.size⟩
  node : ∀ n₁ n₂, w.Twins n₁ n₂ → Node.Alike w.Twins (s₁.node n₁) (s₂.node n₂)
  index : ∀ name ∈ fresh.indexes, ∃ i₁ i₂, s₁.index? w.set₁ name = some i₁ ∧
    s₂.index? w.set₂ name = some i₂ ∧ Ledger.Alike (Entry.Alike w.Twins) i₁ i₂
  root : ∀ tree ∈ fresh.roots, ∃ code₁ code₂, (s₁.docSet w.set₁).code = some code₁ ∧
    (s₂.docSet w.set₂).code = some code₂ ∧ w.Twins (code₁.root tree) (code₂.root tree)
  bound : ∀ tree e, (tree, e) ∈ fresh.bound → ∃ n₁ n₂, (s₁.element e).boundTo tree = some n₁ ∧
    (s₂.element e).boundTo tree = some n₂ ∧ w.Twins n₁ n₂

namespace Store.Alike

variable {w : Pairing} {fresh : Fresh} {s₁ s₂ t₁ t₂ : Store} {n₁ n₂ m₁ m₂ : NodeId}

/-- In the beginning nothing is made, and any two stores are alike. -/
theorem start (d₁ d₂ : SetId) (s₁ s₂ : Store) :
    Alike ⟨d₁, s₁.nodes.size, d₂, s₂.nodes.size⟩ .nothing s₁ s₂ where
  next := ⟨Nat.le_refl _, Nat.add_comm _ _⟩
  node := by
    rintro ⟨i₁⟩ ⟨i₂⟩ ⟨hbase, htwin⟩
    have hbase : s₁.nodes.size ≤ i₁ := hbase
    have htwin : i₂ + s₁.nodes.size = i₁ + s₂.nodes.size := htwin
    have hsize : s₂.nodes.size ≤ i₂ := by omega
    rw [Store.node_of_size_le (n := ⟨i₁⟩) hbase, Store.node_of_size_le (n := ⟨i₂⟩) hsize]
    exact .single _ _ _
  index := fun _ hname => absurd hname List.not_mem_nil
  root := fun _ htree => absurd htree List.not_mem_nil
  bound := fun _ _ he => absurd he List.not_mem_nil

/-- Changes that nothing here speaks of keep stores alike. -/
theorem of_inert (h : Alike w fresh s₁ s₂) (h₁ : Store.Inert w.set₁ s₁ t₁)
    (h₂ : Store.Inert w.set₂ s₂ t₂) : Alike w fresh t₁ t₂ where
  next := by
    rw [h₁.nodes, h₂.nodes]
    exact h.next
  node := by
    intro n₁ n₂ hn
    rw [Store.node, Store.node, h₁.nodes, h₂.nodes]
    exact h.node n₁ n₂ hn
  index := by
    intro name hname
    rw [h₁.index, h₂.index]
    exact h.index name hname
  root := by
    rw [h₁.code, h₂.code]
    exact h.root
  bound := by
    intro tree e he
    have hbound : ∀ {d : SetId} {s t : Store}, Store.Inert d s t →
        (t.element e).boundTo tree = (s.element e).boundTo tree := by
      intro d s t hst
      cases tree with
      | spaces => rw [Element.boundTo, Element.boundTo, hst.space]
      | packages => rw [Element.boundTo, Element.boundTo, hst.package]
    rw [hbound h₁, hbound h₂]
    exact h.bound tree e he

/-- Stores that are alike in much are alike in less. -/
theorem of_subset {less : Fresh} (h : Alike w fresh s₁ s₂) (hindexes : less.indexes ⊆ fresh.indexes)
    (hroots : less.roots ⊆ fresh.roots) (hbound : less.bound ⊆ fresh.bound) : Alike w less s₁ s₂ where
  next := h.next
  node := h.node
  index := fun name hname => h.index name (hindexes hname)
  root := fun tree htree => h.root tree (hroots htree)
  bound := fun tree e he => h.bound tree e (hbound he)

/-! ### Nodes -/

/-- Nodes that are alike, made in both, are twins. -/
theorem addNode (h : Alike w fresh s₁ s₂) {x₁ x₂ : Node} (hx : Node.Alike w.Twins x₁ x₂) :
    Alike w fresh (s₁.addNode x₁).1 (s₂.addNode x₂).1 := by
  refine ⟨?_, ?_, h.index, h.root, h.bound⟩
  · obtain ⟨hbase, htwin⟩ := h.next
    rw [Store.size_addNode, Store.size_addNode]
    refine ⟨Nat.le_succ_of_le hbase, ?_⟩
    have htwin : s₂.nodes.size + w.base₁ = s₁.nodes.size + w.base₂ := htwin
    show s₂.nodes.size + 1 + w.base₁ = s₁.nodes.size + 1 + w.base₂
    omega
  · intro n₁ n₂ hn
    rw [Store.node_addNode, Store.node_addNode]
    have hsame := hn.eq_iff h.next
    by_cases hnew : n₁ = ⟨s₁.nodes.size⟩
    · rw [if_pos hnew, if_pos (hsame.1 hnew)]
      exact hx
    · rw [if_neg hnew, if_neg fun hnew₂ => hnew (hsame.2 hnew₂)]
      exact h.node n₁ n₂ hn

/-- Twins that are changed in the same way stay alike. -/
theorem updateNode (h : Alike w fresh s₁ s₂) (hn : w.Twins n₁ n₂) {f₁ f₂ : Node → Node}
    (hf : Node.Alike w.Twins (f₁ (s₁.node n₁)) (f₂ (s₂.node n₂))) :
    Alike w fresh (s₁.updateNode n₁ f₁) (s₂.updateNode n₂ f₂) := by
  refine ⟨?_, ?_, h.index, h.root, h.bound⟩
  · obtain ⟨hbase, htwin⟩ := h.next
    obtain ⟨hbase_n, htwin_n⟩ := hn
    have hbase : w.base₁ ≤ s₁.nodes.size := hbase
    have htwin : s₂.nodes.size + w.base₁ = s₁.nodes.size + w.base₂ := htwin
    rw [Store.size_updateNode_max, Store.size_updateNode_max]
    refine ⟨Nat.le_trans hbase (Nat.le_max_left _ _), ?_⟩
    show max s₂.nodes.size (n₂.row + 1) + w.base₁ = max s₁.nodes.size (n₁.row + 1) + w.base₂
    omega
  · intro m₁ m₂ hm
    rw [Store.node_updateNode, Store.node_updateNode]
    have hsame := hm.eq_iff hn
    by_cases hmn : m₁ = n₁
    · rw [if_pos hmn, if_pos (hsame.1 hmn), hmn, hsame.1 hmn]
      exact hf
    · rw [if_neg hmn, if_neg fun hmn₂ => hmn (hsame.2 hmn₂)]
      exact h.node m₁ m₂ hm

/-- Twins that are hung below twins, under one key, keep stores alike. -/
theorem addChild (h : Alike w fresh s₁ s₂) (hm : w.Twins m₁ m₂) (hn : w.Twins n₁ n₂) (key : String) :
    Alike w fresh (s₁.addChild m₁ key n₁) (s₂.addChild m₂ key n₂) := by
  have hnode := h.node n₁ n₂ hn
  have hparent : Alike w fresh (s₁.updateNode n₁ fun n => { n with parent := some m₁ })
      (s₂.updateNode n₂ fun n => { n with parent := some m₂ }) :=
    h.updateNode hn ⟨hnode.role, hnode.name, hnode.path, .some hm, hnode.children, hnode.members⟩
  have hup := hparent.node m₁ m₂ hm
  exact hparent.updateNode hm
    ⟨hup.role, hup.name, hup.path, hup.parent, hup.children.put key hn, hup.members⟩

/-! ### Indexes and roots -/

/-- The name of an index that is made anew joins those that were. -/
theorem setIndex (h : Alike w fresh s₁ s₂) (name : String) {i₁ i₂ : Index}
    (hi : Ledger.Alike (Entry.Alike w.Twins) i₁ i₂) :
    Alike w { fresh with indexes := name :: fresh.indexes } (s₁.setIndex w.set₁ name i₁)
      (s₂.setIndex w.set₂ name i₂) := by
  refine ⟨h.next, h.node, ?_, ?_, h.bound⟩
  · intro other hother
    rw [Store.index?_setIndex, Store.index?_setIndex]
    by_cases hname : name = other
    · rw [if_pos hname, if_pos hname]
      exact ⟨i₁, i₂, rfl, rfl, hi⟩
    · rw [if_neg hname, if_neg hname]
      exact h.index other ((List.mem_cons.1 hother).resolve_left (Ne.symm hname))
  · rw [Store.setIndex, Store.setIndex, Store.docSet_updateSet, Store.docSet_updateSet]
    exact h.root

/-- An index that nothing here speaks of may be written at will in the first store. -/
theorem setAside_left (h : Alike w fresh s₁ s₂) {name : String} (hname : name ∉ fresh.indexes)
    (index : Index) : Alike w fresh (s₁.setIndex w.set₁ name index) s₂ := by
  refine ⟨h.next, h.node, fun other hother => ?_, ?_, h.bound⟩
  · have hne : name ≠ other := by
      rintro rfl
      exact hname hother
    rw [Store.index?_setIndex, if_neg hne]
    exact h.index other hother
  · rw [Store.setIndex, Store.docSet_updateSet]
    exact h.root

/-- And in the second. -/
theorem setAside_right (h : Alike w fresh s₁ s₂) {name : String} (hname : name ∉ fresh.indexes)
    (index : Index) : Alike w fresh s₁ (s₂.setIndex w.set₂ name index) := by
  refine ⟨h.next, h.node, fun other hother => ?_, ?_, h.bound⟩
  · have hne : name ≠ other := by
      rintro rfl
      exact hname hother
    rw [Store.index?_setIndex, if_neg hne]
    exact h.index other hother
  · rw [Store.setIndex, Store.docSet_updateSet]
    exact h.root

/-- Entries that are alike, written under one key of an index made anew, keep stores alike. -/
theorem putEntry (h : Alike w fresh s₁ s₂) {name : String} (hname : name ∈ fresh.indexes) (key : String)
    {x₁ x₂ : Entry} (hx : Entry.Alike w.Twins x₁ x₂) :
    Alike w fresh (s₁.putEntry w.set₁ name key x₁) (s₂.putEntry w.set₂ name key x₂) := by
  obtain ⟨i₁, i₂, hi₁, hi₂, hi⟩ := h.index name hname
  rw [Store.putEntry, Store.putEntry, Store.index, Store.index, hi₁, hi₂]
  exact (h.setIndex name (hi.put key hx)).of_subset (List.subset_cons_self _ _) (List.Subset.refl _)
    (List.Subset.refl _)

/-- Twins may become the roots of a tree. -/
theorem setRoot (h : Alike w fresh s₁ s₂) (tree : Tree) (hn : w.Twins n₁ n₂) {code₁ code₂ : CodeBase}
    (hcode₁ : (s₁.docSet w.set₁).code = some code₁) (hcode₂ : (s₂.docSet w.set₂).code = some code₂) :
    Alike w { fresh with roots := tree :: fresh.roots }
      (s₁.updateCode w.set₁ (·.setRoot tree n₁)) (s₂.updateCode w.set₂ (·.setRoot tree n₂)) := by
  refine ⟨h.next, h.node, ?_, ?_, h.bound⟩
  · intro name hname
    rw [Store.updateCode, Store.updateCode, Store.index?, Store.index?, Store.docSet_updateSet,
      Store.docSet_updateSet]
    exact h.index name hname
  · intro other hother
    rw [Store.updateCode, Store.updateCode, Store.docSet_updateSet, Store.docSet_updateSet]
    by_cases htree : other = tree
    · refine ⟨_, _, congrArg (Option.map _) hcode₁, congrArg (Option.map _) hcode₂, ?_⟩
      rw [CodeBase.root_setRoot, CodeBase.root_setRoot, if_pos htree, if_pos htree]
      exact hn
    · obtain ⟨code₁, code₂, hcode₁, hcode₂, hroot⟩ :=
        h.root other ((List.mem_cons.1 hother).resolve_left htree)
      refine ⟨_, _, congrArg (Option.map _) hcode₁, congrArg (Option.map _) hcode₂, ?_⟩
      rw [CodeBase.root_setRoot, CodeBase.root_setRoot, if_neg htree, if_neg htree]
      exact hroot

/-! ### Bindings -/

/-- An element of one kind, filed at twins, keeps stores alike. -/
theorem fileAt (h : Alike w fresh s₁ s₂) (hn : w.Twins n₁ n₂) (kind : Kind) (e : ElementId) :
    Alike w fresh (s₁.updateNode n₁ fun node => { node with members := node.members.add kind e })
      (s₂.updateNode n₂ fun node => { node with members := node.members.add kind e }) := by
  have hnode := h.node n₁ n₂ hn
  refine h.updateNode hn ⟨hnode.role, hnode.name, hnode.path, hnode.parent, hnode.children, ?_⟩
  exact congrArg (Roster.add · kind e) hnode.members

/-- An element that is bound to twins of a tree joins those that were bound anew. -/
theorem bindTo (h : Alike w fresh s₁ s₂) (tree : Tree) (hn : w.Twins n₁ n₂) (e : ElementId) :
    Alike w { fresh with bound := (tree, e) :: fresh.bound } (s₁.updateElement e (.bindTo tree n₁))
      (s₂.updateElement e (.bindTo tree n₂)) := by
  refine ⟨h.next, h.node, h.index, h.root, fun other x hx => ?_⟩
  have hbound : ∀ (s : Store) (n : NodeId), ((s.updateElement e (.bindTo tree n)).element x).boundTo other =
      if (other, x) = (tree, e) then some n else (s.element x).boundTo other := by
    intro s n
    rw [Store.element_updateElement]
    by_cases hxe : x = e
    · rw [if_pos hxe, Element.boundTo_bindTo]
      simp only [Prod.mk.injEq, hxe, and_true]
    · rw [if_neg hxe, if_neg fun hboth => hxe (Prod.mk.inj hboth).2]
  rw [hbound, hbound]
  by_cases hnew : (other, x) = (tree, e)
  · rw [if_pos hnew, if_pos hnew]
    exact ⟨n₁, n₂, rfl, rfl, hn⟩
  · rw [if_neg hnew, if_neg hnew]
    exact h.bound other x ((List.mem_cons.1 hx).resolve_left hnew)

end Store.Alike

end Docset
