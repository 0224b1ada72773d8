/-
  Walks in a tree of nodes: down along children, and up along parents.

  Down is a matter of who can be reached (`Store.Reaches`).  Up there is one way only, and the question is
  whether it ends.  `Store.Ascends` says that it does, where, and after which nodes; `Store.ancestors` lists
  the nodes above a node by going up a bounded number of steps.

  1. A way up that ends goes through no node twice (`Ascends.nodup`): from a node met again it would go on
     as it did the first time.
  2. All nodes on it but the last have a parent, so they were written; hence there are no more steps than
     nodes (`Ascends.length_le_size`), and the bound of `Store.ancestors` cuts nothing off
     (`Ascends.ancestors_eq`).
  3. Where nodes have levels that fall with each step up, all nodes are reached from the top
     (`reaches_of_level`); and where they fall by one, the way up from each has as many steps as its level
     says (`ancestors_of_level`).
-/
import Mathlib.Data.List.Perm.Basic
import Docset.Proofs.Store

namespace Docset.Store

variable {s : Store}

/-! ## Down -/

/-- What is reached from a node by following children. -/
inductive Reaches (s : Store) (top : NodeId) : NodeId → Prop
  | top : Store.Reaches s top top
  | child {m c : NodeId} {key : String} :
    Store.Reaches s top m → (s.node m).children.get? key = some c → Store.Reaches s top c

/-- Where every node of a tree but the top is a child of one on a lower level, all are reached from the
    top. -/
theorem reaches_of_level {top : NodeId} {tree : NodeId → Prop} {level : NodeId → Nat}
    (hdown : ∀ n, tree n → n ≠ top → ∃ m key, tree m ∧ (s.node m).children.get? key = some n ∧
      level m < level n) {n : NodeId} (hn : tree n) : s.Reaches top n := by
  have hall : ∀ k x, tree x → level x < k → s.Reaches top x := by
    intro k
    induction k with
    | zero =>
      intro x _ hlow
      omega
    | succ k ih =>
      intro x hx hlow
      by_cases hxtop : x = top
      · rw [hxtop]
        exact .top
      · obtain ⟨m, key, hm, hchild, hlt⟩ := hdown x hx hxtop
        exact .child (ih m hm (by omega)) hchild
  exact hall (level n + 1) n hn (Nat.lt_succ_self _)

/-! ## Up -/

/-- The way up from a node goes through the nodes listed, nearest first, and ends at `top`, which has no
    parent. -/
inductive Ascends (s : Store) (top : NodeId) : NodeId → List NodeId → Prop
  | top : (s.node top).parent = none → Ascends s top top []
  | up {n m : NodeId} {ms : List NodeId} :
    (s.node n).parent = some m → Ascends s top m ms → Ascends s top n (m :: ms)

/-- A node that was never written has no parent. -/
theorem row_lt_of_parent {n m : NodeId} (h : (s.node n).parent = some m) : n.row < s.nodes.size := by
  by_cases hrow : n.row < s.nodes.size
  · exact hrow
  · rw [node_of_size_le (by omega)] at h
    cases h

namespace Ascends

variable {top n : NodeId} {ms ms' : List NodeId}

/-- There is one way up. -/
theorem unique (h : s.Ascends top n ms) (h' : s.Ascends top n ms') : ms = ms' := by
  induction h generalizing ms' with
  | top hnone =>
    cases h' with
    | top _ => rfl
    | up hsome _ => rw [hnone] at hsome; cases hsome
  | up hsome _ ih =>
    cases h' with
    | top hnone => rw [hsome] at hnone; cases hnone
    | up hsome' hrest =>
      rw [hsome] at hsome'
      cases hsome'
      rw [ih hrest]

/-- From every node on the way the rest of the way is shorter. -/
theorem of_mem (h : s.Ascends top n ms) {m : NodeId} (hm : m ∈ ms) :
    ∃ rest, s.Ascends top m rest ∧ rest.length < ms.length := by
  induction h with
  | top _ => cases hm
  | @up n p ps _ hrest ih =>
    rw [List.length_cons]
    rcases List.mem_cons.1 hm with rfl | hm
    · exact ⟨ps, hrest, by omega⟩
    · obtain ⟨rest, hrest_m, hlt⟩ := ih hm
      exact ⟨rest, hrest_m, by omega⟩

/-- No node is met twice. -/
theorem nodup (h : s.Ascends top n ms) : (n :: ms).Nodup := by
  induction h with
  | top _ => simp
  | @up n m ms hup hrest ih =>
    refine List.nodup_cons.2 ⟨?_, ih⟩
    intro hmem
    -- The way from the node itself would be shorter than it is.
    obtain ⟨rest, hrest_n, hlt⟩ := (Ascends.up hup hrest).of_mem hmem
    have heq := (Ascends.up hup hrest).unique hrest_n
    rw [heq] at hlt
    omega

/-- All nodes on the way but the last were written. -/
theorem row_lt_of_mem_dropLast (h : s.Ascends top n ms) {x : NodeId} (hx : x ∈ (n :: ms).dropLast) :
    x.row < s.nodes.size := by
  induction h with
  | top _ => cases hx
  | up hup _ ih =>
    rw [List.dropLast_cons_of_ne_nil (List.cons_ne_nil _ _)] at hx
    rcases List.mem_cons.1 hx with rfl | hx
    · exact row_lt_of_parent hup
    · exact ih hx

/-- There are no more steps on the way than nodes were written. -/
theorem length_le_size (h : s.Ascends top n ms) : ms.length ≤ s.nodes.size := by
  have hnodup : (n :: ms).dropLast.Nodup := h.nodup.sublist (List.dropLast_sublist _)
  have hrows : ((n :: ms).dropLast.map NodeId.row).Nodup := by
    refine List.Pairwise.map _ ?_ hnodup
    intro x y hne hrow
    apply hne
    cases x
    cases y
    exact congrArg NodeId.mk hrow
  have hsubset : (n :: ms).dropLast.map NodeId.row ⊆ List.range s.nodes.size := by
    intro row hrow
    obtain ⟨x, hx, rfl⟩ := List.mem_map.1 hrow
    exact List.mem_range.2 (h.row_lt_of_mem_dropLast hx)
  have hle := (List.subperm_of_subset hrows hsubset).length_le
  simpa using hle

/-- With enough steps the bounded walk goes all the way. -/
theorem ancestorsWithin_eq (h : s.Ascends top n ms) {bound : Nat} (hbound : ms.length ≤ bound) :
    s.ancestorsWithin bound n = ms := by
  induction h generalizing bound with
  | top hnone =>
    cases bound with
    | zero => rfl
    | succ bound => rw [ancestorsWithin, hnone]
  | up hup _ ih =>
    rw [List.length_cons] at hbound
    obtain ⟨bound, rfl⟩ : ∃ k, bound = k + 1 := ⟨bound - 1, by omega⟩
    rw [ancestorsWithin, hup]
    show _ :: s.ancestorsWithin bound _ = _
    rw [ih (by omega)]

/-- **The nodes above a node** are those on its way up, if the way ends. -/
theorem ancestors_eq (h : s.Ascends top n ms) : s.ancestors n = ms :=
  h.ancestorsWithin_eq h.length_le_size

end Ascends

/-- **Levels count steps**: where every node of a tree but the top has a parent in it, one level lower, the
    way up from each ends at the top, after as many steps as its level says. -/
theorem ancestors_of_level {top : NodeId} {tree : NodeId → Prop} {level : NodeId → Nat}
    (htop : (s.node top).parent = none) (hlevel : level top = 0)
    (hup : ∀ n, tree n → n ≠ top →
      ∃ m, tree m ∧ (s.node n).parent = some m ∧ level n = level m + 1)
    {n : NodeId} (hn : tree n) :
    s.Ascends top n (s.ancestors n) ∧ (s.ancestors n).length = level n := by
  have hway : ∀ k x, tree x → level x = k → ∃ ms, s.Ascends top x ms ∧ ms.length = k := by
    intro k
    induction k with
    | zero =>
      intro x hx hzero
      by_cases hxtop : x = top
      · subst hxtop
        exact ⟨[], .top htop, rfl⟩
      · obtain ⟨m, -, -, hlow⟩ := hup x hx hxtop
        omega
    | succ k ih =>
      intro x hx hsucc
      have hxtop : x ≠ top := by
        rintro rfl
        omega
      obtain ⟨m, hm, hparent, hlow⟩ := hup x hx hxtop
      obtain ⟨ms, hms, hlength⟩ := ih m hm (by omega)
      refine ⟨m :: ms, .up hparent hms, ?_⟩
      rw [List.length_cons, hlength]
  obtain ⟨ms, hms, hlength⟩ := hway (level n) n hn rfl
  rw [hms.ancestors_eq]
  exact ⟨hms, hlength⟩

end Docset.Store
