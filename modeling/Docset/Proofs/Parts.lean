/-
  Work on different parts of a store may be done in either order.

  A pass has a PART of the store that it may write (`Part`).  Two things make a pass fit to be moved past
  another one:

  * it LEAVES all that is not its part, and every node that was made before (`Store.Leaves`);
  * it does AGAIN on another store what it did on the first, if what it reads is the same: in its part there
    are the same data, but for the numbers of the nodes that it makes, which are counted on from where the
    other store stands (`Store.Repeats`).

  Say that two such passes have no part in common, and run them in both orders.  What is of the part of the
  one was left by the other if it came second, and is done again if it came first; so either way it is the
  same, but for numbers.  The nodes of the two passes have exchanged their places (`NodeId.exchange`), and
  with this one exchange of numbers the two ends are the same (`Store.Crossing.renumbered`).

  That every kind of data is compared in one way is the point of `View`: a place of the store where data
  with references stands, and to which part it belongs.
-/
import Mathlib.Logic.Equiv.Defs
import Docset.Proofs.References

namespace Docset

open Build Refers

/-! ## Exchanging numbers -/

namespace NodeId

/-- The number as far behind `later` as the given one is behind `base`; earlier ones stay. -/
def shift (base later : Nat) (n : NodeId) : NodeId :=
  if n.row < base then n else ⟨n.row - base + later⟩

/-- From `base` on, the numbers below `one` trade places with as many behind them as there are from
    `base` to `other`. -/
def trade (base one other : Nat) (n : NodeId) : NodeId :=
  if n.row < base then n
  else if n.row < one then ⟨n.row - base + other⟩
  else if n.row < one + other - base then ⟨n.row - one + base⟩
  else n

variable {base one other : Nat} {n : NodeId}

theorem trade_of_lt_base (hn : n.row < base) : trade base one other n = n := if_pos hn

/-- The numbers in front move behind the others. -/
theorem trade_of_lt (hn : n.row < one) : trade base one other n = shift base other n := by
  rw [trade, shift]
  split
  · rfl
  · rfl

/-- And the numbers behind move to the front. -/
theorem trade_shift (hone : base ≤ one) (hn : n.row < other) :
    trade base one other (shift base one n) = n := by
  rw [shift]
  split
  · rename_i hbase
    exact trade_of_lt_base hbase
  · obtain ⟨row⟩ := n
    dsimp only at *
    rw [trade, if_neg (by dsimp only; omega), if_neg (by dsimp only; omega),
      if_pos (by dsimp only; omega)]
    exact congrArg NodeId.mk (by dsimp only; omega)

theorem trade_of_le (hone : base ≤ one) (hother : base ≤ other) (hn : one + other - base ≤ n.row) :
    trade base one other n = n := by
  rw [trade, if_neg (by omega), if_neg (by omega), if_neg (by omega)]

/-- The numbers that are neither early nor in front nor last come from the front of the other side. -/
theorem exists_shift (base other : Nat) (hfront : ¬ n.row < one) (hlast : n.row < one + other - base) :
    ∃ m : NodeId, base ≤ m.row ∧ m.row < other ∧ shift base one m = n := by
  refine ⟨⟨n.row - one + base⟩, by dsimp only; omega, by dsimp only; omega, ?_⟩
  rw [shift, if_neg (by dsimp only; omega)]
  exact congrArg NodeId.mk (by dsimp only; omega)

theorem trade_trade (hone : base ≤ one) (hother : base ≤ other) (n : NodeId) :
    trade base other one (trade base one other n) = n := by
  by_cases hfront : n.row < one
  · rw [trade_of_lt hfront]
    exact trade_shift hother hfront
  by_cases hlast : n.row < one + other - base
  · obtain ⟨m, -, hm, rfl⟩ := exists_shift base other hfront hlast
    rw [trade_shift hone hm]
    exact trade_of_lt hm
  · have hle : one + other - base ≤ n.row := Nat.le_of_not_lt hlast
    rw [trade_of_le hone hother hle]
    exact trade_of_le hother hone (by omega)

/-- The exchange of two blocks of numbers. -/
def exchange (hone : base ≤ one) (hother : base ≤ other) : Equiv.Perm NodeId where
  toFun := trade base one other
  invFun := trade base other one
  left_inv := trade_trade hone hother
  right_inv := trade_trade hother hone

end NodeId

/-! ## What an element gives as its place -/

/-- The place in a tree that an element refers to: a text, a node, or none yet. -/
def Element.placeIn (e : Element) : Tree → PackageRef
  | .spaces =>
    match e.space with
    | .path text => .text text
    | .node n => .node n
  | .packages => e.package

namespace Element

variable {e e₁ e₂ : Element} {tree : Tree}

theorem placeIn_of_boundTo {n : NodeId} (h : e.boundTo tree = some n) : e.placeIn tree = .node n := by
  cases tree with
  | spaces => rw [placeIn, space_of_boundTo h]
  | packages =>
    rw [boundTo] at h
    cases hpackage : e.package with
    | unset => rw [hpackage] at h; cases h
    | text text => rw [hpackage] at h; cases h
    | node m =>
      rw [hpackage] at h
      cases h
      exact hpackage

/-- A place is a reference of the element. -/
theorem refs_placeIn {n : NodeId} (hn : n ∈ refs (e.placeIn tree)) : n ∈ refs e := by
  cases tree with
  | spaces =>
    refine List.mem_append_left _ ?_
    rw [placeIn] at hn
    cases hspace : e.space with
    | path text => rw [hspace] at hn; cases hn
    | node m =>
      rw [hspace] at hn
      exact hn
  | packages => exact List.mem_append_right _ hn

theorem placeIn_renumber (f : NodeId → NodeId) (e : Element) (tree : Tree) :
    (renumber f e).placeIn tree = renumber f (e.placeIn tree) := by
  cases tree with
  | spaces =>
    show (match renumber f e.space with | .path text => PackageRef.text text | .node n => .node n) = _
    rw [placeIn]
    cases e.space with
    | path text => rfl
    | node n => rfl
  | packages => rfl

/-- An element is its fixed part, its two places, and what it has as a file. -/
theorem eq_of_fixed (hfixed : e₁.fixed = e₂.fixed) (hplace : ∀ tree, e₁.placeIn tree = e₂.placeIn tree)
    (hfile : e₁.file = e₂.file) : e₁ = e₂ := by
  have hspace : e₁.space = e₂.space := by
    have hplace := hplace .spaces
    rw [placeIn, placeIn] at hplace
    cases h₁ : e₁.space with
    | path text =>
      cases h₂ : e₂.space with
      | path text' =>
        rw [h₁, h₂] at hplace
        cases hplace
        rfl
      | node n => rw [h₁, h₂] at hplace; cases hplace
    | node n =>
      cases h₂ : e₂.space with
      | path text => rw [h₁, h₂] at hplace; cases hplace
      | node n' =>
        rw [h₁, h₂] at hplace
        cases hplace
        rfl
  have hpackage : e₁.package = e₂.package := hplace .packages
  obtain ⟨kind₁, qualifiedName₁, name₁, space₁, package₁, tags₁, members₁, file₁⟩ := e₁
  obtain ⟨kind₂, qualifiedName₂, name₂, space₂, package₂, tags₂, members₂, file₂⟩ := e₂
  rw [fixed, fixed, withoutSource, withoutSource] at hfixed
  simp only [Element.mk.injEq] at hfixed hspace hpackage hfile ⊢
  exact ⟨hfixed.1, hfixed.2.1, hfixed.2.2.1, hspace, hpackage, hfixed.2.2.2.2.2.1, hfixed.2.2.2.2.2.2.1,
    hfile⟩

end Element

/-! ## Parts -/

/-- The part of a store that a pass may write: what it makes anew or adds to, and the source text that it
    takes out. -/
structure Part extends Fresh where
  /-- The files whose source text may go. -/
  sources : List ElementId

/-- Two parts have nothing in common. -/
structure Part.Apart (a b : Part) : Prop where
  indexes : ∀ name ∈ a.indexes, name ∉ b.indexes
  roots : ∀ tree ∈ a.roots, tree ∉ b.roots
  bound : ∀ x ∈ a.bound, x ∉ b.bound
  sources : ∀ e ∈ a.sources, e ∉ b.sources

theorem Part.Apart.symm {a b : Part} (h : a.Apart b) : b.Apart a where
  indexes := fun name hb ha => h.indexes name ha hb
  roots := fun tree hb ha => h.roots tree ha hb
  bound := fun x hb ha => h.bound x ha hb
  sources := fun e hb ha => h.sources e ha hb

/-- The root of a tree of a set, if it describes source code. -/
def Store.rootOf (s : Store) (d : SetId) (tree : Tree) : Option NodeId :=
  (s.docSet d).code.map (·.root tree)

/-- What describes source code is its files and its two roots. -/
theorem CodeBase.eq_of_roots {f : NodeId → NodeId} {code₁ code₂ : Option CodeBase}
    (hfiles : code₂.map CodeBase.files = code₁.map CodeBase.files)
    (hroot : ∀ tree, code₂.map (CodeBase.root · tree) = renumber f (code₁.map (CodeBase.root · tree))) :
    code₂ = renumber f code₁ := by
  cases code₁ with
  | none =>
    cases code₂ with
    | none => rfl
    | some code₂ => cases hfiles
  | some code₁ =>
    cases code₂ with
    | none => cases hfiles
    | some code₂ =>
      obtain ⟨files₁, spaceRoot₁, packageRoot₁⟩ := code₁
      obtain ⟨files₂, spaceRoot₂, packageRoot₂⟩ := code₂
      have hspaces : spaceRoot₂ = f spaceRoot₁ := Option.some.inj (hroot .spaces)
      have hpackages : packageRoot₂ = f packageRoot₁ := Option.some.inj (hroot .packages)
      have hfiles : files₂ = files₁ := Option.some.inj hfiles
      rw [hspaces, hpackages, hfiles]
      rfl

/-- The later store differs, apart from the journal, in a part and in new nodes alone. -/
structure Store.Leaves (d : SetId) (part : Part) (s t : Store) : Prop where
  input : Store.SameInput d s t
  settings : (t.docSet d).settings = (s.docSet d).settings
  size_le : s.nodes.size ≤ t.nodes.size
  old : ∀ n : NodeId, n.row < s.nodes.size → t.node n = s.node n
  index : ∀ name, name ∉ part.indexes → t.index? d name = s.index? d name
  root : ∀ tree, tree ∉ part.roots → t.rootOf d tree = s.rootOf d tree
  place : ∀ tree e, (tree, e) ∉ part.bound → (t.element e).placeIn tree = (s.element e).placeIn tree
  file : ∀ e, e ∉ part.sources → (t.element e).file = (s.element e).file

/-- What led from `s₁` to `t₁` has been done again from `s₂` to `t₂`: in the part, and in the new nodes,
    there are the same data, with numbers counted on from where the second store stood. -/
structure Store.Repeats (d : SetId) (part : Part) (s₁ t₁ s₂ t₂ : Store) : Prop where
  size : t₂.nodes.size + s₁.nodes.size = t₁.nodes.size + s₂.nodes.size
  node : ∀ n : NodeId, s₁.nodes.size ≤ n.row →
    t₂.node (n.shift s₁.nodes.size s₂.nodes.size) =
      renumber (NodeId.shift s₁.nodes.size s₂.nodes.size) (t₁.node n)
  index : ∀ name ∈ part.indexes, t₂.index? d name =
    renumber (NodeId.shift s₁.nodes.size s₂.nodes.size) (t₁.index? d name)
  root : ∀ tree ∈ part.roots, t₂.rootOf d tree =
    renumber (NodeId.shift s₁.nodes.size s₂.nodes.size) (t₁.rootOf d tree)
  place : ∀ tree e, (tree, e) ∈ part.bound → (t₂.element e).placeIn tree =
    renumber (NodeId.shift s₁.nodes.size s₂.nodes.size) ((t₁.element e).placeIn tree)
  file : ∀ e ∈ part.sources, (t₂.element e).file = (t₁.element e).file

/-! ## Views -/

/-- A place of the store where data with references stands, and the parts that it belongs to. -/
structure View (d : SetId) (α : Type) [Refers α] where
  /-- The data that stands there. -/
  get : Store → α
  /-- Whether it belongs to a part. -/
  belongs : Part → Prop
  known : ∀ {s : Store}, s.Whole d → s.Knows (get s)
  leaves : ∀ {part s t}, Store.Leaves d part s t → ¬ belongs part → get t = get s
  repeats : ∀ {part s₁ t₁ s₂ t₂}, Store.Repeats d part s₁ t₁ s₂ t₂ → belongs part →
    get t₂ = renumber (NodeId.shift s₁.nodes.size s₂.nodes.size) (get t₁)

namespace View

variable {d : SetId}

/-- An index of the set. -/
def index (d : SetId) (name : String) : View d (Option Index) where
  get s := s.index? d name
  belongs part := name ∈ part.indexes
  known h := h.index name
  leaves h hname := h.index name hname
  repeats h hname := h.index name hname

/-- The root of a tree of the set. -/
def root (d : SetId) (tree : Tree) : View d (Option NodeId) where
  get s := s.rootOf d tree
  belongs part := tree ∈ part.roots
  known := by
    intro s h n hn
    have hcode := h.code
    rw [Store.rootOf] at hn
    cases hsome : (s.docSet d).code with
    | none => rw [hsome] at hn; cases hn
    | some code =>
      rw [hsome] at hn hcode
      refine hcode n ?_
      rw [List.mem_singleton.1 hn]
      cases tree with
      | spaces => exact List.mem_cons_self
      | packages => exact List.mem_cons_of_mem _ List.mem_cons_self
  leaves h htree := h.root tree htree
  repeats h htree := h.root tree htree

/-- The place of an element in a tree. -/
def place (d : SetId) (tree : Tree) (e : ElementId) : View d PackageRef where
  get s := (s.element e).placeIn tree
  belongs part := (tree, e) ∈ part.bound
  known h := fun n hn => h.element e n (Element.refs_placeIn hn)
  leaves h hbound := h.place tree e hbound
  repeats h hbound := h.place tree e hbound

end View

/-! ## Two orders -/

/-- Two pieces of work, on parts that have nothing in common, done in both orders. -/
structure Store.Crossing (d : SetId) (a b : Part) (s t₁ u₁ t₂ u₂ : Store) : Prop where
  apart : a.Apart b
  whole : s.Whole d
  whole₁ : t₁.Whole d
  whole₂ : t₂.Whole d
  first₁ : Store.Leaves d a s t₁
  then₁ : Store.Leaves d b t₁ u₁
  first₂ : Store.Leaves d b s t₂
  then₂ : Store.Leaves d a t₂ u₂
  again_a : Store.Repeats d a s t₁ t₂ u₂
  again_b : Store.Repeats d b s t₂ t₁ u₁

/-- Two stores are one, as far as a set goes, with other numbers for the nodes: nodes with all that is
    known of them and filed there, elements with their bindings and their source text, indexes, and what
    the set has. -/
structure Store.Renumbered (ρ : NodeId → NodeId) (d : SetId) (s t : Store) : Prop where
  size : t.nodes.size = s.nodes.size
  node : ∀ n, t.node (ρ n) = renumber ρ (s.node n)
  element : ∀ e, t.element e = renumber ρ (s.element e)
  index : ∀ name, t.index? d name = renumber ρ (s.index? d name)
  code : (t.docSet d).code = renumber ρ (s.docSet d).code
  settings : (t.docSet d).settings = (s.docSet d).settings

namespace Store.Crossing

variable {d : SetId} {a b : Part} {s t₁ u₁ t₂ u₂ : Store} (h : Store.Crossing d a b s t₁ u₁ t₂ u₂)

include h

/-- The exchange of the nodes of the two pieces of work. -/
def trade (_ : Store.Crossing d a b s t₁ u₁ t₂ u₂) : NodeId → NodeId :=
  NodeId.trade s.nodes.size t₁.nodes.size t₂.nodes.size

/-- What was there from the beginning keeps its number. -/
theorem renumber_old {α : Type} [Refers α] {x : α} (hx : s.Knows x) : renumber h.trade x = x :=
  renumber_eq_self fun n hn => NodeId.trade_of_lt_base (hx n hn)

/-- Data that the first piece of work made is the same in both orders, but for numbers. -/
theorem renumber_front {α : Type} [Refers α] {x : α} (hx : t₁.Knows x) :
    renumber h.trade x = renumber (NodeId.shift s.nodes.size t₂.nodes.size) x :=
  renumber_congr fun n hn => NodeId.trade_of_lt (hx n hn)

/-- And so is what the second one made. -/
theorem renumber_back {α : Type} [Refers α] {x : α} (hx : t₂.Knows x) :
    renumber h.trade (renumber (NodeId.shift s.nodes.size t₁.nodes.size) x) = x := by
  rw [renumber_renumber]
  exact renumber_eq_self fun n hn => NodeId.trade_shift h.first₁.size_le (hx n hn)

/-- **What is seen at any place** is the same in both orders, but for the exchange of numbers. -/
theorem view {α : Type} [Refers α] (v : View d α) (hapart : v.belongs a → ¬ v.belongs b) :
    v.get u₂ = renumber h.trade (v.get u₁) := by
  -- A place belongs to the one part, or to the other, or to none.
  by_cases ha : v.belongs a
  · rw [v.leaves h.then₁ (hapart ha), v.repeats h.again_a ha, h.renumber_front (v.known h.whole₁)]
  · by_cases hb : v.belongs b
    · rw [v.leaves h.then₂ ha, v.repeats h.again_b hb, h.renumber_back (v.known h.whole₂)]
    · rw [v.leaves h.then₁ hb, v.leaves h.first₁ ha, v.leaves h.then₂ ha, v.leaves h.first₂ hb,
        h.renumber_old (v.known h.whole)]

theorem size_eq : u₂.nodes.size = u₁.nodes.size := by
  have ha := h.again_a.size
  have hb := h.again_b.size
  omega

theorem node (n : NodeId) : u₂.node (h.trade n) = renumber h.trade (u₁.node n) := by
  have hle₁ := h.first₁.size_le
  have hle₂ := h.first₂.size_le
  have hsize := h.again_b.size
  by_cases hold : n.row < s.nodes.size
  · have hn : h.trade n = n := NodeId.trade_of_lt_base hold
    rw [hn, h.then₁.old n (by omega), h.first₁.old n hold, h.then₂.old n (by omega), h.first₂.old n hold,
      h.renumber_old (h.whole.node n)]
  by_cases hfront : n.row < t₁.nodes.size
  · have hn : h.trade n = n.shift s.nodes.size t₂.nodes.size := NodeId.trade_of_lt hfront
    rw [hn, h.again_a.node n (by omega), h.then₁.old n hfront, h.renumber_front (h.whole₁.node n)]
  by_cases hback : n.row < u₁.nodes.size
  · -- The node is one of the second piece of work, which made it first in the other order.
    obtain ⟨m, hbase, hm, rfl⟩ := NodeId.exists_shift s.nodes.size t₂.nodes.size hfront (by omega)
    have hn : h.trade (m.shift s.nodes.size t₁.nodes.size) = m := NodeId.trade_shift hle₁ hm
    rw [hn, h.then₂.old m hm, h.again_b.node m hbase, h.renumber_back (h.whole₂.node m)]
  · -- Behind all that was made, rows are blank.
    have hn : h.trade n = n := NodeId.trade_of_le hle₁ hle₂ (by omega)
    rw [hn, Store.node_of_size_le (Nat.le_of_not_lt hback),
      Store.node_of_size_le (by rw [h.size_eq]; exact Nat.le_of_not_lt hback)]
    rfl

theorem element (e : ElementId) : u₂.element e = renumber h.trade (u₁.element e) := by
  refine Element.eq_of_fixed ?_ (fun tree => ?_) ?_
  · have h₁ := (h.first₁.input.trans h.then₁.input).element e
    have h₂ := (h.first₂.input.trans h.then₂.input).element e
    exact h₂.trans h₁.symm
  · rw [Element.placeIn_renumber]
    exact h.view (.place d tree e) (h.apart.bound (tree, e))
  · show (u₂.element e).file = (u₁.element e).file
    by_cases ha : e ∈ a.sources
    · rw [h.then₁.file e (h.apart.sources e ha), h.again_a.file e ha]
    · by_cases hb : e ∈ b.sources
      · rw [h.then₂.file e ha, h.again_b.file e hb]
      · rw [h.then₁.file e hb, h.first₁.file e ha, h.then₂.file e ha, h.first₂.file e hb]

theorem code : (u₂.docSet d).code = renumber h.trade (u₁.docSet d).code := by
  have hfiles₁ := (h.first₁.input.trans h.then₁.input).code
  have hfiles₂ := (h.first₂.input.trans h.then₂.input).code
  exact CodeBase.eq_of_roots (hfiles₂.trans hfiles₁.symm) fun tree =>
    h.view (.root d tree) (h.apart.roots tree)

/-- **Both orders come to the same**, but for the exchange of numbers. -/
theorem renumbered : Store.Renumbered h.trade d u₁ u₂ where
  size := h.size_eq
  node := h.node
  element := h.element
  index := fun name => h.view (.index d name) (h.apart.indexes name)
  code := h.code
  settings := by
    rw [h.then₁.settings, h.first₁.settings, h.then₂.settings, h.first₂.settings]

end Store.Crossing

end Docset
