/-
  Plans: what a finished tree looks like, path by path.

  A tree is built by making and linking nodes, in an order that hangs on the input.  What comes out can
  be said without any order: which paths have a node, which path is one step below which, and which
  elements are filed at a path.  That is a PLAN, and it is read off the input alone.

  A store `Follows` a plan if its tree is as the plan says.  So two stores have the same tree, up to the
  order of what is filed, as soon as they follow plans that agree (`Plan.Agrees.sameTree`), and the
  nodes, which may be numbered quite differently, need not be compared.
-/
import Docset.Proofs.Store

namespace Docset

/-! ## What is seen at a node -/

namespace Store

/-- The path of a node's parent, if it has one. -/
def parentAt (s : Store) (n : NodeId) : Option String :=
  (s.node n).parent.map fun m => (s.node m).path

/-- The path of a node's child under a key, if there is one. -/
def childAt (s : Store) (n : NodeId) (key : String) : Option String :=
  ((s.node n).children.get? key).map fun c => (s.node c).path

theorem parentAt_eq_some {s : Store} {n : NodeId} {path : String} :
    s.parentAt n = some path ↔ ∃ m, (s.node n).parent = some m ∧ (s.node m).path = path :=
  Option.map_eq_some_iff

theorem childAt_eq_some {s : Store} {n : NodeId} {key path : String} :
    s.childAt n key = some path ↔
      ∃ c, (s.node n).children.get? key = some c ∧ (s.node c).path = path :=
  Option.map_eq_some_iff

end Store

/-! ## Plans -/

/-- What a tree is to look like. -/
structure Plan where
  /-- The paths that have a node. -/
  needed : String → Prop
  /-- Whether a path is one step below another, and under which key. -/
  below : String → String → String → Prop
  /-- The path that the node of a path says it hangs off. -/
  hangsOff : String → String
  /-- The elements of a kind that are filed at a path, in order. -/
  held : String → Kind → List ElementId

/-- The node is as the plan says for its path. -/
structure Store.NodeFollows (s : Store) (tree : Tree) (plan : Plan) (n : NodeId) : Prop where
  parentPath : (s.node n).parentPath = plan.hangsOff (s.node n).path
  parent : ∀ q, s.parentAt n = some q ↔
    plan.needed q ∧ ∃ key, plan.below q key (s.node n).path
  child : ∀ key q, s.childAt n key = some q ↔
    plan.needed q ∧ plan.below (s.node n).path key q
  held : ∀ kind ∈ tree.kinds,
    (s.node n).collection kind = .ok (plan.held (s.node n).path kind)

/-- The tree of a set is as the plan says. -/
structure Store.Follows (s : Store) (d : SetId) (tree : Tree) (plan : Plan) : Prop where
  keys : ∀ p, p ∈ (s.index d tree.indexName).keys ↔ plan.needed p
  node : ∀ p, plan.needed p → ∃ n, (s.index d tree.indexName).get? p = some (.node n) ∧
    (s.node n).path = p ∧ s.NodeFollows tree plan n

/-! ## Comparing trees -/

/-- Two nodes have parents at one path, children at the same paths under the same keys, and hold the
    same elements, as often, but maybe in another order. -/
structure Store.SameNode (tree : Tree) (s₁ : Store) (n₁ : NodeId) (s₂ : Store) (n₂ : NodeId) :
    Prop where
  parentPath : (s₁.node n₁).parentPath = (s₂.node n₂).parentPath
  parent : s₁.parentAt n₁ = s₂.parentAt n₂
  child : ∀ key, s₁.childAt n₁ key = s₂.childAt n₂ key
  held : ∀ kind ∈ tree.kinds, ∃ es₁ es₂, (s₁.node n₁).collection kind = .ok es₁ ∧
    (s₂.node n₂).collection kind = .ok es₂ ∧ es₁.Perm es₂

/-- Two sets have a tree of one shape, with the same elements at every path. -/
structure Store.SameTree (tree : Tree) (s₁ : Store) (d₁ : SetId) (s₂ : Store) (d₂ : SetId) :
    Prop where
  keys : ∀ p, p ∈ (s₁.index d₁ tree.indexName).keys ↔ p ∈ (s₂.index d₂ tree.indexName).keys
  node : ∀ p ∈ (s₁.index d₁ tree.indexName).keys, ∃ n₁ n₂,
    (s₁.index d₁ tree.indexName).get? p = some (.node n₁) ∧
    (s₂.index d₂ tree.indexName).get? p = some (.node n₂) ∧ Store.SameNode tree s₁ n₁ s₂ n₂

/-- Two plans are one but for the order of what is filed. -/
structure Plan.Agrees (plan₁ plan₂ : Plan) : Prop where
  needed : ∀ p, plan₁.needed p ↔ plan₂.needed p
  below : plan₁.below = plan₂.below
  hangsOff : plan₁.hangsOff = plan₂.hangsOff
  held : ∀ p kind, (plan₁.held p kind).Perm (plan₂.held p kind)

section Agreement

variable {tree : Tree} {s₁ s₂ : Store} {d₁ d₂ : SetId} {plan₁ plan₂ : Plan}

/-- Nodes of one path that follow plans that agree are the same to look at. -/
theorem Plan.Agrees.sameNode (h : plan₁.Agrees plan₂) {n₁ n₂ : NodeId}
    (h₁ : s₁.NodeFollows tree plan₁ n₁) (h₂ : s₂.NodeFollows tree plan₂ n₂)
    (hpath : (s₁.node n₁).path = (s₂.node n₂).path) : Store.SameNode tree s₁ n₁ s₂ n₂ where
  parentPath := by
    rw [h₁.parentPath, h₂.parentPath, h.hangsOff, hpath]
  parent := by
    refine Option.ext fun q => ?_
    show s₁.parentAt n₁ = some q ↔ s₂.parentAt n₂ = some q
    rw [h₁.parent, h₂.parent, h.needed, h.below, hpath]
  child := by
    intro key
    refine Option.ext fun q => ?_
    show s₁.childAt n₁ key = some q ↔ s₂.childAt n₂ key = some q
    rw [h₁.child, h₂.child, h.needed, h.below, hpath]
  held := by
    intro kind hkind
    refine ⟨_, _, h₁.held kind hkind, h₂.held kind hkind, ?_⟩
    rw [hpath]
    exact h.held _ kind

/-- **Trees that follow plans that agree are the same.** -/
theorem Plan.Agrees.sameTree (h : plan₁.Agrees plan₂) (h₁ : s₁.Follows d₁ tree plan₁)
    (h₂ : s₂.Follows d₂ tree plan₂) : Store.SameTree tree s₁ d₁ s₂ d₂ where
  keys := by
    intro p
    rw [h₁.keys, h₂.keys]
    exact h.needed p
  node := by
    intro p hp
    obtain ⟨n₁, hget₁, hpath₁, hnode₁⟩ := h₁.node p ((h₁.keys p).1 hp)
    obtain ⟨n₂, hget₂, hpath₂, hnode₂⟩ := h₂.node p ((h.needed p).1 ((h₁.keys p).1 hp))
    exact ⟨n₁, n₂, hget₁, hget₂, h.sameNode hnode₁ hnode₂ (hpath₁.trans hpath₂.symm)⟩

end Agreement

/-! ## Later stores -/

/-- A later store has the tree of a set as it was: its index, and all nodes that were made. -/
structure Store.Retains (d : SetId) (tree : Tree) (s t : Store) : Prop where
  index : t.index d tree.indexName = s.index d tree.indexName
  node : ∀ n : NodeId, n.row < s.nodes.size → t.node n = s.node n

namespace Store.Retains

variable {d : SetId} {tree : Tree} {s t : Store} {n : NodeId}

theorem refl (d : SetId) (tree : Tree) (s : Store) : Store.Retains d tree s s :=
  ⟨rfl, fun _ _ => rfl⟩

theorem parentAt (h : Store.Retains d tree s t) (hn : n.row < s.nodes.size)
    (hup : ∀ m, (s.node n).parent = some m → m.row < s.nodes.size) : t.parentAt n = s.parentAt n := by
  rw [Store.parentAt, Store.parentAt, h.node n hn]
  cases hm : (s.node n).parent with
  | none => rfl
  | some m => rw [Option.map_some, Option.map_some, h.node m (hup m hm)]

theorem childAt (h : Store.Retains d tree s t) (hn : n.row < s.nodes.size)
    (hdown : ∀ key c, (s.node n).children.get? key = some c → c.row < s.nodes.size) (key : String) :
    t.childAt n key = s.childAt n key := by
  rw [Store.childAt, Store.childAt, h.node n hn]
  cases hc : (s.node n).children.get? key with
  | none => rfl
  | some c => rw [Option.map_some, Option.map_some, h.node c (hdown key c hc)]

end Store.Retains

end Docset
