/-
  What the steps of a build do to the rows and the indexes of a store, and what they leave alone.

  A look at one row after a change of another is settled here once, so that no later proof opens a
  table.
-/
import Docset.Package.Tree

namespace Docset.Store

/-! ## Nodes -/

theorem node_addNode (s : Store) (x : Node) (n : NodeId) :
    (s.addNode x).1.node n = if n = ⟨s.nodes.size⟩ then x else s.node n := by
  show (s.nodes.push x).get n.row = _
  rw [Table.get_push]
  by_cases h : s.nodes.size = n.row
  · rw [if_pos h, if_pos (by rw [h])]
  · rw [if_neg h, if_neg (fun hn => h (by rw [hn]))]
    rfl

theorem node_addNode_of_ne {s : Store} {x : Node} {n : NodeId} (h : n ≠ ⟨s.nodes.size⟩) :
    (s.addNode x).1.node n = s.node n := by
  rw [node_addNode, if_neg h]

theorem node_addNode_self (s : Store) (x : Node) : (s.addNode x).1.node ⟨s.nodes.size⟩ = x := by
  rw [node_addNode, if_pos rfl]

/-- A row that was never written is blank. -/
theorem node_of_size_le {s : Store} {n : NodeId} (h : s.nodes.size ≤ n.row) : s.node n = default :=
  Table.get_of_size_le h

theorem size_addNode (s : Store) (x : Node) : (s.addNode x).1.nodes.size = s.nodes.size + 1 :=
  Table.size_push _ _

theorem node_updateNode (s : Store) (n : NodeId) (f : Node → Node) (m : NodeId) :
    (s.updateNode n f).node m = if m = n then f (s.node m) else s.node m := by
  show (s.nodes.modify n.row f).get m.row = _
  rw [Table.get_modify]
  by_cases h : n.row = m.row
  · have hmn : m = n := by
      cases m; cases n; exact congrArg NodeId.mk h.symm
    rw [if_pos h, if_pos hmn]
    rfl
  · rw [if_neg h, if_neg (fun hn => h (by rw [hn]))]
    rfl

theorem size_updateNode {s : Store} {n : NodeId} (h : n.row < s.nodes.size) (f : Node → Node) :
    (s.updateNode n f).nodes.size = s.nodes.size :=
  Table.size_set_of_lt h _

/-- Changing a row that was never written makes all rows up to it. -/
theorem size_updateNode_max (s : Store) (n : NodeId) (f : Node → Node) :
    (s.updateNode n f).nodes.size = max s.nodes.size (n.row + 1) := by
  by_cases h : n.row < s.nodes.size
  · rw [size_updateNode h, Nat.max_eq_left h]
  · have h : ¬ n.row < s.nodes.rows.size := h
    show (s.nodes.set n.row _).rows.size = max s.nodes.rows.size (n.row + 1)
    rw [Table.set, if_neg h, Array.size_push, Array.size_append, Array.size_replicate]
    omega

/-- Hanging a node below another writes the parent of the one and the children of the other. -/
theorem node_addChild (s : Store) (parent : NodeId) (key : String) (child n : NodeId) :
    (s.addChild parent key child).node n =
      { s.node n with
        parent := if n = child then some parent else (s.node n).parent
        children := if n = parent then (s.node n).children.put key child else (s.node n).children } := by
  rw [addChild, node_updateNode, node_updateNode]
  by_cases hp : n = parent
  · by_cases hc : n = child
    · simp only [if_pos hp, if_pos hc]
    · simp only [if_pos hp, if_neg hc]
  · by_cases hc : n = child
    · simp only [if_neg hp, if_pos hc]
    · simp only [if_neg hp, if_neg hc]

section AddChild

variable (s : Store) (parent : NodeId) (key : String) (child n : NodeId)

theorem path_addChild : ((s.addChild parent key child).node n).path = (s.node n).path := by
  rw [node_addChild]

theorem name_addChild : ((s.addChild parent key child).node n).name = (s.node n).name := by
  rw [node_addChild]

theorem role_addChild : ((s.addChild parent key child).node n).role = (s.node n).role := by
  rw [node_addChild]

theorem parent_addChild : ((s.addChild parent key child).node n).parent =
    if n = child then some parent else (s.node n).parent := by
  rw [node_addChild]

theorem children_addChild : ((s.addChild parent key child).node n).children =
    if n = parent then (s.node n).children.put key child else (s.node n).children := by
  rw [node_addChild]

end AddChild

theorem size_addChild {s : Store} {parent child : NodeId} (hp : parent.row < s.nodes.size)
    (hc : child.row < s.nodes.size) (key : String) :
    (s.addChild parent key child).nodes.size = s.nodes.size := by
  rw [addChild, size_updateNode (by rw [size_updateNode hc]; exact hp), size_updateNode hc]

/-! ## Elements -/

theorem element_updateElement (s : Store) (e : ElementId) (f : Element → Element) (x : ElementId) :
    (s.updateElement e f).element x = if x = e then f (s.element x) else s.element x := by
  show (s.elements.modify e.row f).get x.row = _
  rw [Table.get_modify]
  by_cases h : e.row = x.row
  · have hxe : x = e := by
      cases x; cases e; exact congrArg ElementId.mk h.symm
    rw [if_pos h, if_pos hxe]
    rfl
  · rw [if_neg h, if_neg (fun hx => h (by rw [hx]))]
    rfl

/-! ## Documentation sets and their indexes -/

theorem docSet_updateSet (s : Store) (d : SetId) (f : DocSet → DocSet) :
    (s.updateSet d f).docSet d = f (s.docSet d) := by
  show (s.sets.modify d.row f).get d.row = _
  rw [Table.get_modify, if_pos rfl]
  rfl

/-- Two changes of a set are one. -/
theorem updateSet_updateSet (s : Store) (d : SetId) (f g : DocSet → DocSet) :
    (s.updateSet d f).updateSet d g = s.updateSet d fun set => g (f set) :=
  congrArg (fun sets => { s with sets := sets }) (Table.modify_modify s.sets d.row f g)

theorem docSet_updateSet_of_ne {d other : SetId} (h : other ≠ d) (s : Store) (f : DocSet → DocSet) :
    (s.updateSet d f).docSet other = s.docSet other := by
  have hrow : d.row ≠ other.row := fun hrow => h (congrArg SetId.mk hrow.symm)
  show (s.sets.modify d.row f).get other.row = _
  rw [Table.get_modify, if_neg hrow]
  rfl

theorem index?_setIndex (s : Store) (d : SetId) (name : String) (index : Index) (other : String) :
    (s.setIndex d name index).index? d other =
      if name = other then some index else s.index? d other := by
  rw [setIndex, index?, docSet_updateSet]
  exact Ledger.get?_put _ _ _ _

theorem index_setIndex (s : Store) (d : SetId) (name : String) (index : Index) (other : String) :
    (s.setIndex d name index).index d other = if name = other then index else s.index d other := by
  rw [Store.index, index?_setIndex]
  split
  · rfl
  · rfl

theorem index_putEntry (s : Store) (d : SetId) (name key : String) (entry : Entry) (other : String) :
    (s.putEntry d name key entry).index d other =
      if name = other then (s.index d other).put key entry else s.index d other := by
  rw [putEntry, index_setIndex]
  split
  · rename_i h; rw [h]
  · rfl

/-- Writing indexes does not touch nodes. -/
theorem nodes_putEntry (s : Store) (d : SetId) (name key : String) (entry : Entry) :
    (s.putEntry d name key entry).nodes = s.nodes := rfl

theorem node_putEntry (s : Store) (d : SetId) (name key : String) (entry : Entry) (n : NodeId) :
    (s.putEntry d name key entry).node n = s.node n := rfl

/-- Writing indexes does not touch what the set describes. -/
theorem code_putEntry (s : Store) (d : SetId) (name key : String) (entry : Entry) :
    ((s.putEntry d name key entry).docSet d).code = (s.docSet d).code := by
  rw [putEntry, setIndex, docSet_updateSet]

/-- What a set describes is written without touching its indexes. -/
theorem index?_updateCode (s : Store) (d : SetId) (f : CodeBase → CodeBase) (name : String) :
    (s.updateCode d f).index? d name = s.index? d name := by
  rw [updateCode, index?, docSet_updateSet]
  rfl

/-- Making an index touches sets alone. -/
theorem openIndex_eq (s : Store) (d : SetId) (name : String) (index : Index) :
    s.openIndex d name index = { s with sets := (s.openIndex d name index).sets } := by
  rw [openIndex]
  split
  · rfl
  · rfl

/-- An index is there already, or it is made. -/
theorem openIndex_cases (s : Store) (d : SetId) (name : String) (index : Index) :
    s.openIndex d name index = s ∨ s.openIndex d name index = s.setIndex d name index := by
  rw [openIndex]
  split
  · exact Or.inl rfl
  · exact Or.inr rfl

/-- Opening an index as an empty one changes none, since an absent one is empty. -/
theorem index_openIndex (s : Store) (d : SetId) (name other : String) :
    (s.openIndex d name .empty).index d other = s.index d other := by
  rw [openIndex]
  split
  · rfl
  · rename_i habsent
    rw [index_setIndex]
    split
    · rename_i heq
      rw [← heq, index, habsent]
      rfl
    · rfl

theorem code_openIndex (s : Store) (d : SetId) (name : String) (index : Index) :
    ((s.openIndex d name index).docSet d).code = (s.docSet d).code := by
  rw [openIndex]
  split
  · rfl
  · rw [setIndex, docSet_updateSet]

end Docset.Store
