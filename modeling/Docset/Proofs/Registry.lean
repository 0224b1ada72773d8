/-
  Registries: an index that lists the nodes made for a tree, each under its path.

  While a tree is built, a node is made and entered in one go, so the index and the table of nodes grow
  side by side: the entries of the index are exactly the nodes made since the build began, in the order
  of making, and no path occurs twice.  All else is read off that.  Between keys and nodes there is a
  one-to-one relation (`Registry.get?_path`, `Registry.of_get?`, `Registry.eq_of_path`), so a look-up
  in the index never meets an entry of the wrong sort (`Registry.lookUp_cases`).

  The two ways in which a build changes what a registry speaks of keep it: `Registry.create` for a new
  node, `Registry.congr` for every change that leaves paths and roles of nodes alone.
-/
import Docset.Namespace.Tree
import Docset.Proofs.Input
import Docset.Proofs.Ledger

namespace Docset

/-! ## The nodes of a build -/

/-- The nodes made since row `base`, in the order of making. -/
def Store.madeSince (s : Store) (base : Nat) : List NodeId :=
  (List.range' base (s.nodes.size - base)).map NodeId.mk

namespace Store

variable {s : Store} {base : Nat}

theorem mem_madeSince {n : NodeId} :
    n ∈ s.madeSince base ↔ base ≤ n.row ∧ n.row < s.nodes.size := by
  rw [madeSince, List.mem_map]
  constructor
  · rintro ⟨i, hi, rfl⟩
    rw [List.mem_range'_1] at hi
    show base ≤ i ∧ i < s.nodes.size
    omega
  · rintro ⟨hbase, hsize⟩
    exact ⟨n.row, List.mem_range'_1.2 (by omega), rfl⟩

theorem madeSince_addNode (hbase : base ≤ s.nodes.size) (x : Node) :
    (s.addNode x).1.madeSince base = s.madeSince base ++ [⟨s.nodes.size⟩] := by
  rw [madeSince, size_addNode, Nat.succ_sub hbase, List.range'_1_concat, List.map_append]
  rw [show base + (s.nodes.size - base) = s.nodes.size by omega]
  rfl

theorem madeSince_of_size_succ (hsize : s.nodes.size = base + 1) : s.madeSince base = [⟨base⟩] := by
  rw [madeSince, hsize, Nat.add_sub_cancel_left]
  rfl

theorem madeSince_eq_of_size {t : Store} (hsize : t.nodes.size = s.nodes.size) (base : Nat) :
    t.madeSince base = s.madeSince base := by
  rw [madeSince, madeSince, hsize]

/-- What was made by a moment comes first, and what was made after it follows. -/
theorem madeSince_append {t : Store} (hbase : base ≤ s.nodes.size)
    (hsize : s.nodes.size ≤ t.nodes.size) :
    t.madeSince base = s.madeSince base ++ t.madeSince s.nodes.size := by
  have hrows : List.range' base (t.nodes.size - base) =
      List.range' base (s.nodes.size - base) ++
        List.range' s.nodes.size (t.nodes.size - s.nodes.size) := by
    rw [show t.nodes.size - base = (s.nodes.size - base) + (t.nodes.size - s.nodes.size) by omega,
      ← List.range'_append_1, show base + (s.nodes.size - base) = s.nodes.size by omega]
  rw [madeSince, hrows, List.map_append]
  rfl

theorem madeSince_of_lt (h : base < s.nodes.size) :
    s.madeSince base = ⟨base⟩ :: s.madeSince (base + 1) := by
  rw [madeSince, show s.nodes.size - base = (s.nodes.size - (base + 1)) + 1 by omega, List.range'_succ]
  rfl

theorem madeSince_of_size_le (h : s.nodes.size ≤ base) : s.madeSince base = [] := by
  rw [madeSince, Nat.sub_eq_zero_of_le h]
  rfl

theorem madeSince_addChild {n m : NodeId} (hn : n ∈ s.madeSince base) (hm : m ∈ s.madeSince base)
    (key : String) : (s.addChild m key n).madeSince base = s.madeSince base :=
  madeSince_eq_of_size (size_addChild (mem_madeSince.1 hm).2 (mem_madeSince.1 hn).2 key) base

/-- A node is not made again. -/
theorem ne_size_of_mem_madeSince {n : NodeId} (hn : n ∈ s.madeSince base) : n ≠ ⟨s.nodes.size⟩ := by
  rintro rfl
  exact Nat.lt_irrefl _ (mem_madeSince.1 hn).2

end Store

/-! ## Growth -/

/-- Later on in a build: elements are as they were, all nodes made are there, under their paths, nothing
    more is filed, and the nodes of before the build are as they were. -/
structure Store.Extends (d : SetId) (base : Nat) (s t : Store) : Prop where
  elements : t.elements = s.elements
  code : (t.docSet d).code = (s.docSet d).code
  size_le : s.nodes.size ≤ t.nodes.size
  path : ∀ n ∈ s.madeSince base, (t.node n).path = (s.node n).path
  /-- Rows that are not written yet have nothing filed at them either. -/
  members : ∀ n, (t.node n).members = (s.node n).members
  old : ∀ n : NodeId, n.row < base → t.node n = s.node n

namespace Store.Extends

variable {d : SetId} {base : Nat} {s t u : Store}

theorem made (h : Store.Extends d base s t) (n : NodeId) (hn : n ∈ s.madeSince base) :
    n ∈ t.madeSince base := by
  have hrow := Store.mem_madeSince.1 hn
  have hsize := h.size_le
  exact Store.mem_madeSince.2 (by omega)

theorem refl (d : SetId) (base : Nat) (s : Store) : Store.Extends d base s s where
  elements := rfl
  code := rfl
  size_le := Nat.le_refl _
  path := fun _ _ => rfl
  members := fun _ => rfl
  old := fun _ _ => rfl

theorem trans (hst : Store.Extends d base s t) (htu : Store.Extends d base t u) :
    Store.Extends d base s u where
  elements := htu.elements.trans hst.elements
  code := htu.code.trans hst.code
  size_le := Nat.le_trans hst.size_le htu.size_le
  path := fun n hn => (htu.path n (hst.made n hn)).trans (hst.path n hn)
  members := fun n => (htu.members n).trans (hst.members n)
  old := fun n hn => (htu.old n hn).trans (hst.old n hn)

/-- A change of indexes alone is growth by nothing. -/
theorem of_nodes (hnodes : t.nodes = s.nodes) (helements : t.elements = s.elements)
    (hcode : (t.docSet d).code = (s.docSet d).code) : Store.Extends d base s t where
  elements := helements
  code := hcode
  size_le := Nat.le_of_eq (congrArg Table.size hnodes.symm)
  path := by
    intro n _
    rw [Store.node, Store.node, hnodes]
  members := by
    intro n
    rw [Store.node, Store.node, hnodes]
  old := by
    intro n _
    rw [Store.node, Store.node, hnodes]

/-- Making a node without members is growth, whatever is written into the indexes of the set. -/
theorem create {x : Node} (hx : x.members = .empty) (hbase : base ≤ s.nodes.size)
    (hnodes : t.nodes = (s.addNode x).1.nodes) (helements : t.elements = s.elements)
    (hcode : (t.docSet d).code = (s.docSet d).code) : Store.Extends d base s t := by
  have hnode : ∀ n, t.node n = if n = ⟨s.nodes.size⟩ then x else s.node n := by
    intro n
    rw [← Store.node_addNode, Store.node, Store.node, hnodes]
  have hold : ∀ n : NodeId, n.row < s.nodes.size → t.node n = s.node n := by
    intro n hn
    have hne : n ≠ ⟨s.nodes.size⟩ := by
      rintro rfl
      exact Nat.lt_irrefl _ hn
    rw [hnode, if_neg hne]
  refine ⟨helements, hcode, ?_, ?_, ?_, ?_⟩
  · rw [hnodes, Store.size_addNode]
    exact Nat.le_succ _
  · intro n hn
    rw [hold n (Store.mem_madeSince.1 hn).2]
  · intro n
    rw [hnode]
    split
    · rename_i hn
      have hblank : s.node ⟨s.nodes.size⟩ = default := Store.node_of_size_le (Nat.le_refl _)
      rw [hn, hx, hblank]
      rfl
    · rfl
  · intro n hn
    exact hold n (by omega)

/-- Hanging a node made in the build below another one is growth by nothing. -/
theorem addChild {n m : NodeId} (hn : n ∈ s.madeSince base) (hm : m ∈ s.madeSince base)
    (key : String) : Store.Extends d base s (s.addChild m key n) where
  elements := rfl
  code := rfl
  size_le := Nat.le_of_eq
    (Store.size_addChild (Store.mem_madeSince.1 hm).2 (Store.mem_madeSince.1 hn).2 key).symm
  path := fun x _ => Store.path_addChild s m key n x
  members := by
    intro x
    rw [Store.node_addChild]
  old := by
    intro x hx
    have hrow_n := Store.mem_madeSince.1 hn
    have hrow_m := Store.mem_madeSince.1 hm
    have hxn : x ≠ n := by
      rintro rfl
      omega
    have hxm : x ≠ m := by
      rintro rfl
      omega
    rw [Store.node_addChild, if_neg hxn, if_neg hxm]

theorem sameInput (h : Store.Extends d base s t) : Store.SameInput d s t := by
  refine ⟨fun e => ?_, congrArg (Option.map CodeBase.files) h.code⟩
  rw [Store.element, Store.element, h.elements]

end Store.Extends

/-! ## Registries -/

/-- The index lists exactly the nodes made since row `base`, each under its path; they are nodes of
    `tree`, and no path occurs twice. -/
structure Registry (tree : Tree) (d : SetId) (index : String) (base : Nat) (s : Store) : Prop where
  base_le : base ≤ s.nodes.size
  entries : (s.index d index).entries =
    (s.madeSince base).map fun n => ((s.node n).path, Entry.node n)
  nodup : (s.index d index).keys.Nodup
  tree_eq : ∀ n ∈ s.madeSince base, (s.node n).tree = tree

namespace Registry

variable {tree : Tree} {d : SetId} {index : String} {base : Nat} {s t : Store}

theorem mem_entries (h : Registry tree d index base s) {key : String} {entry : Entry} :
    (key, entry) ∈ (s.index d index).entries ↔
      ∃ n ∈ s.madeSince base, (s.node n).path = key ∧ entry = .node n := by
  rw [h.entries, List.mem_map]
  constructor
  · rintro ⟨n, hn, heq⟩
    cases heq
    exact ⟨n, hn, rfl, rfl⟩
  · rintro ⟨n, hn, rfl, rfl⟩
    exact ⟨n, hn, rfl⟩

/-- What stands under a key is the node with that path. -/
theorem of_get? (h : Registry tree d index base s) {key : String} {entry : Entry}
    (hget : (s.index d index).get? key = some entry) :
    ∃ n ∈ s.madeSince base, (s.node n).path = key ∧ entry = .node n :=
  h.mem_entries.1 ((Ledger.get?_eq_some_iff h.nodup).1 hget)

/-- A node stands under its path. -/
theorem get?_path (h : Registry tree d index base s) {n : NodeId} (hn : n ∈ s.madeSince base) :
    (s.index d index).get? (s.node n).path = some (.node n) :=
  (Ledger.get?_eq_some_iff h.nodup).2 (h.mem_entries.2 ⟨n, hn, rfl, rfl⟩)

/-- Two nodes of one path are one node. -/
theorem eq_of_path (h : Registry tree d index base s) {n m : NodeId} (hn : n ∈ s.madeSince base)
    (hm : m ∈ s.madeSince base) (hpath : (s.node n).path = (s.node m).path) : n = m := by
  have hget := h.get?_path hn
  rw [hpath, h.get?_path hm] at hget
  cases hget
  rfl

/-- The keys are the paths of the nodes. -/
theorem mem_keys (h : Registry tree d index base s) {key : String} :
    key ∈ (s.index d index).keys ↔ ∃ n ∈ s.madeSince base, (s.node n).path = key := by
  rw [Ledger.mem_keys_iff]
  constructor
  · rintro ⟨entry, hget⟩
    obtain ⟨n, hn, hpath, -⟩ := h.of_get? hget
    exact ⟨n, hn, hpath⟩
  · rintro ⟨n, hn, rfl⟩
    exact ⟨.node n, h.get?_path hn⟩

/-- The nodes of the index are the nodes made. -/
theorem nodes_eq (h : Registry tree d index base s) :
    Index.nodes (s.index d index) = s.madeSince base := by
  rw [Index.nodes, Ledger.values, h.entries, List.map_map, List.filterMap_map]
  exact List.filterMap_some

/-! ## Looking up -/

theorem lookUp_path (h : Registry tree d index base s) {n : NodeId} (hn : n ∈ s.madeSince base) :
    s.lookUp tree d index (s.node n).path = .ok (some n) := by
  rw [Store.lookUp, h.get?_path hn]
  exact if_pos (h.tree_eq n hn)

theorem lookUp_of_not_mem {key : String} (hkey : key ∉ (s.index d index).keys) :
    s.lookUp tree d index key = .ok none := by
  rw [Store.lookUp, Ledger.get?_eq_none_iff.2 hkey]

/-- **Look-ups in a registry never fail**: there is the node with that path, or there is none. -/
theorem lookUp_cases (h : Registry tree d index base s) (key : String) :
    (∃ n ∈ s.madeSince base, (s.node n).path = key ∧ s.lookUp tree d index key = .ok (some n)) ∨
      (key ∉ (s.index d index).keys ∧ s.lookUp tree d index key = .ok none) := by
  by_cases hkey : key ∈ (s.index d index).keys
  · obtain ⟨n, hn, rfl⟩ := h.mem_keys.1 hkey
    exact Or.inl ⟨n, hn, rfl, h.lookUp_path hn⟩
  · exact Or.inr ⟨hkey, lookUp_of_not_mem hkey⟩

/-! ## What keeps a registry -/

/-- A change that leaves index, paths and roles alone keeps the registry. -/
theorem congr (h : Registry tree d index base s) (hsize : t.nodes.size = s.nodes.size)
    (hindex : t.index d index = s.index d index)
    (hnode : ∀ n, (t.node n).path = (s.node n).path ∧ (t.node n).role = (s.node n).role) :
    Registry tree d index base t where
  base_le := hsize ▸ h.base_le
  entries := by
    rw [hindex, h.entries, Store.madeSince_eq_of_size hsize base]
    exact List.map_congr_left fun n _ => by rw [(hnode n).1]
  nodup := hindex ▸ h.nodup
  tree_eq := by
    intro n hn
    rw [Store.madeSince_eq_of_size hsize base] at hn
    rw [Node.tree, (hnode n).2]
    exact h.tree_eq n hn

/-- A new node, entered under a path that no node has yet, keeps the registry. -/
theorem create (h : Registry tree d index base s) {x : Node} (htree : x.tree = tree)
    (hpath : x.path ∉ (s.index d index).keys) :
    Registry tree d index base
      ((s.addNode x).1.putEntry d index x.path (.node ⟨s.nodes.size⟩)) := by
  have hindex : ((s.addNode x).1.putEntry d index x.path (.node ⟨s.nodes.size⟩)).index d index =
      (s.index d index).put x.path (.node ⟨s.nodes.size⟩) := by
    rw [Store.index_putEntry, if_pos rfl]
    rfl
  have hmade : ((s.addNode x).1.putEntry d index x.path (.node ⟨s.nodes.size⟩)).madeSince base =
      s.madeSince base ++ [⟨s.nodes.size⟩] := Store.madeSince_addNode h.base_le x
  refine ⟨?_, ?_, ?_, ?_⟩
  · show base ≤ (s.addNode x).1.nodes.size
    rw [Store.size_addNode]
    exact Nat.le_succ_of_le h.base_le
  · rw [hindex, hmade, Ledger.entries_put_of_not_mem hpath, h.entries, List.map_append]
    congr 1
    · refine List.map_congr_left fun n hn => ?_
      show _ = (((s.addNode x).1.node n).path, Entry.node n)
      rw [Store.node_addNode_of_ne (Store.ne_size_of_mem_madeSince hn)]
    · show _ = [(((s.addNode x).1.node ⟨s.nodes.size⟩).path, Entry.node ⟨s.nodes.size⟩)]
      rw [Store.node_addNode_self]
  · rw [hindex]
    exact Ledger.nodup_keys_put h.nodup _ _
  · intro n hn
    show ((s.addNode x).1.node n).tree = tree
    rw [hmade, List.mem_append, List.mem_singleton] at hn
    rcases hn with hn | rfl
    · rw [Store.node_addNode_of_ne (Store.ne_size_of_mem_madeSince hn)]
      exact h.tree_eq n hn
    · rw [Store.node_addNode_self]
      exact htree

/-- An index with the root alone is a registry from the root on. -/
theorem start {x : Node} (htree : x.tree = tree)
    (hsize : s.nodes.size = base + 1) (hnode : s.node ⟨base⟩ = x)
    (hindex : s.index d index = Ledger.empty.put x.path (.node ⟨base⟩)) :
    Registry tree d index base s := by
  have hmade := Store.madeSince_of_size_succ hsize
  refine ⟨by omega, ?_, ?_, ?_⟩
  · rw [hindex, hmade, List.map_singleton, hnode]
    rfl
  · rw [hindex]
    have hempty : (Ledger.empty : Index).keys.Nodup := List.nodup_nil
    exact Ledger.nodup_keys_put hempty _ _
  · intro n hn
    rw [hmade, List.mem_singleton] at hn
    rw [hn, hnode]
    exact htree

end Registry

end Docset
