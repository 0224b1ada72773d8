/-
  Binding an element and filing it at a node.

  Both trees end a step in the same way: the reference of an element is written, and the element is filed
  at the node under the kind that it has.  `Store.bindAt` is the store after both.  Filing can fail in one
  way only, at a node that does not hold the kind, so with the right kind it never does
  (`ensures_bindAt`); and all that it changes is one element and one roster.
-/
import Docset.Proofs.Build
import Docset.Proofs.Input

namespace Docset

open Build

/-! ## Nodes but for what is filed at them -/

/-- The node with nothing filed at it. -/
def Node.unfiled (n : Node) : Node := { n with members := .empty }

/-- The stores have the same nodes, but for what is filed at them. -/
def Store.SameNodes (s t : Store) : Prop := ∀ n, (t.node n).unfiled = (s.node n).unfiled

namespace Store.SameNodes

variable {s t : Store}

theorem role (h : s.SameNodes t) (n : NodeId) : (t.node n).role = (s.node n).role :=
  (congrArg Node.role (h n) :)

theorem name (h : s.SameNodes t) (n : NodeId) : (t.node n).name = (s.node n).name :=
  (congrArg Node.name (h n) :)

theorem path (h : s.SameNodes t) (n : NodeId) : (t.node n).path = (s.node n).path :=
  (congrArg Node.path (h n) :)

theorem parent (h : s.SameNodes t) (n : NodeId) : (t.node n).parent = (s.node n).parent :=
  (congrArg Node.parent (h n) :)

theorem children (h : s.SameNodes t) (n : NodeId) : (t.node n).children = (s.node n).children :=
  (congrArg Node.children (h n) :)

end Store.SameNodes

/-! ## Binding and filing -/

/-- Filing at a node that holds the kind changes that node alone. -/
theorem ok_of_fileAt {n : NodeId} {e : ElementId} {s t : Store} {a : Unit}
    (h : fileAt n e s = .ok a t) : t = s.updateNode n fun node =>
      { node with members := node.members.add (s.element e).kind e } := by
  rw [fileAt, Store.fileAt] at h
  cases hheld : (s.node n).collection (s.element e).kind with
  | error m => rw [hheld] at h; cases h
  | ok held =>
    rw [hheld] at h
    cases h
    rfl

/-- The store with an element changed by `bind` and filed at a node. -/
def Store.bindAt (s : Store) (e : ElementId) (n : NodeId) (bind : Element → Element) : Store :=
  (s.updateElement e bind).updateNode n fun node =>
    { node with members := node.members.add (s.element e).kind e }

/-- Binding and filing, where it ends well. -/
theorem ok_of_bindAt {n : NodeId} {e : ElementId} {bind : Element → Element} {s t : Store} {a : Unit}
    (hbind : ∀ x, (bind x).kind = x.kind) (h : fileAt n e (s.updateElement e bind) = .ok a t) :
    t = s.bindAt e n bind := by
  have hkind : ((s.updateElement e bind).element e).kind = (s.element e).kind := by
    rw [Store.element_updateElement, if_pos rfl]
    exact hbind _
  rw [ok_of_fileAt h, hkind]
  rfl

section BindAt

variable {s : Store} {e : ElementId} {n : NodeId} {bind : Element → Element}

/-- Binding ends well at a node that holds the element's kind. -/
theorem ensures_bindAt {Q : Unit → Store → Prop} (hbind : ∀ x, (bind x).kind = x.kind)
    (hkind : (s.element e).kind ∈ (s.node n).tree.kinds) (hQ : Q () (s.bindAt e n bind)) :
    Ensures (do change (·.updateElement e bind); fileAt n e) s Q := by
  have hsame : ((s.updateElement e bind).element e).kind = (s.element e).kind := by
    rw [Store.element_updateElement, if_pos rfl]
    exact hbind _
  rw [ensures_bind, ensures_change]
  refine ensures_fileAt ?_ ?_
  · rw [hsame]
    exact hkind
  · rw [hsame]
    exact hQ

theorem element_bindAt (s : Store) (e : ElementId) (n : NodeId) (bind : Element → Element)
    (x : ElementId) :
    (s.bindAt e n bind).element x = if x = e then bind (s.element x) else s.element x :=
  Store.element_updateElement s e bind x

/-- Nodes change in what is filed at them alone. -/
theorem sameNodes_bindAt (s : Store) (e : ElementId) (n : NodeId) (bind : Element → Element) :
    s.SameNodes (s.bindAt e n bind) := by
  intro m
  rw [Store.bindAt, Store.node_updateNode]
  split
  · rfl
  · rfl

/-- The element comes last at the node. -/
theorem members_bindAt (s : Store) (e : ElementId) (n : NodeId) (bind : Element → Element)
    (m : NodeId) : ((s.bindAt e n bind).node m).members =
      if m = n then (s.node m).members.add (s.element e).kind e else (s.node m).members := by
  rw [Store.bindAt, Store.node_updateNode]
  split
  · rfl
  · rfl

theorem size_bindAt (hn : n.row < s.nodes.size) : (s.bindAt e n bind).nodes.size = s.nodes.size :=
  Store.size_updateNode hn _

theorem size_le_bindAt (s : Store) (e : ElementId) (n : NodeId) (bind : Element → Element) :
    s.nodes.size ≤ (s.bindAt e n bind).nodes.size ∧ n.row < (s.bindAt e n bind).nodes.size := by
  rw [Store.bindAt, Store.size_updateNode_max]
  exact ⟨Nat.le_max_left _ _, Nat.le_max_right _ _⟩

theorem sameInput_bindAt (d : SetId) (s : Store) (e : ElementId) (n : NodeId)
    (hbind : ∀ x, (bind x).fixed = x.fixed) : Store.SameInput d s (s.bindAt e n bind) :=
  (Store.SameInput.updateElement s d e hbind).trans (Store.SameInput.of_eq rfl rfl)

end BindAt

end Docset
