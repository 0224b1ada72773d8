/-
  The forest of namespaces, while it grows.

  `SpaceForest` is what holds of the namespaces at every moment of a build: they are registered under
  their paths, their names and parent paths are what their paths say, and the two ways in which the
  tree is written down — the parent of a node, the children of a node — fit together as far as they
  can.  As far as they can: children are kept by NAME, so of two namespaces with one parent and one name
  only the one that was linked last is found there.  `SpaceForest.kept` says that somebody is.

  Everything a build does to nodes is one of three changes, and each keeps the forest:

  * `SpaceForest.create` — a new namespace, not linked yet;
  * `SpaceForest.link` — a namespace without a parent is hung off the one above it;
  * `SpaceForest.congr` — elements are filed, indexes of others are written, messages are recorded.
-/
import Docset.Proofs.Filing
import Docset.Proofs.Name.Parent
import Docset.Proofs.Registry

namespace Docset

/-! ## Nodes and their paths -/

/-- Whether name and parent path of the node are what its path says. -/
def Node.Formed (n : Node) : Prop := (n.parentPath, n.name) = Path.split n.path

namespace Node

variable {n m : Node}

theorem formed_ofPath (path : String) : (ofPath path).Formed := rfl

theorem formed_spaceRoot : spaceRoot.Formed := rfl

theorem Formed.congr (h : n.Formed) (hrole : m.role = n.role) (hname : m.name = n.name)
    (hpath : m.path = n.path) : m.Formed := by
  rw [Formed, parentPath] at h ⊢
  rw [hrole, hname, hpath]
  exact h

theorem Formed.name_eq (h : n.Formed) : n.name = (Path.split n.path).2 :=
  congrArg Prod.snd h

theorem Formed.parentKey_eq (h : n.Formed) : n.parentKey = Path.parentKey n.path := by
  have hparent : n.parentPath = (Path.split n.path).1 := congrArg Prod.fst h
  rw [Path.parentKey_eq, parentKey, h.name_eq, hparent]

theorem Formed.lineage_eq (h : n.Formed) : n.lineage = Path.lineage n.path := by
  rw [lineage, h.parentKey_eq, Path.lineage_eq]

end Node

/-! ## The invariant -/

/-- The store with the namespace of a path made and entered under the path. -/
def Store.withSpace (s : Store) (d : SetId) (index path : String) : Store :=
  (s.addNode (.ofPath path)).1.putEntry d index path (.node ⟨s.nodes.size⟩)

/-- The namespaces made since row `base` are a forest under the index, linked as far as names allow. -/
structure SpaceForest (d : SetId) (index : String) (base : Nat) (s : Store) : Prop where
  registry : Registry .spaces d index base s
  /-- The first namespace made is the root. -/
  root_made : ⟨base⟩ ∈ s.madeSince base
  root_path : (s.node ⟨base⟩).path = Path.root
  formed : ∀ n ∈ s.madeSince base, (s.node n).Formed
  /-- A parent is a namespace of the forest, at the path one step up. -/
  above : ∀ n ∈ s.madeSince base, ∀ m, (s.node n).parent = some m →
    m ∈ s.madeSince base ∧ Path.parentKey (s.node n).path = .ok (s.node m).path
  /-- A child is a namespace of the forest, and its parent and its name are as its place says. -/
  below : ∀ m ∈ s.madeSince base, ∀ key c, (s.node m).children.get? key = some c →
    c ∈ s.madeSince base ∧ (s.node c).parent = some m ∧ (s.node c).name = key
  /-- Where a namespace has a parent, somebody is kept there under its name. -/
  kept : ∀ n ∈ s.madeSince base, ∀ m, (s.node n).parent = some m →
    ∃ c, (s.node m).children.get? (s.node n).name = some c

/-- Nothing is left to link: the namespace has a parent, or no path is above it. -/
def Store.Settled (s : Store) (n : NodeId) : Prop :=
  (s.node n).parent.isSome = true ∨ ∀ above, Path.parentKey (s.node n).path ≠ .ok above

namespace SpaceForest

variable {d : SetId} {index : String} {base : Nat} {s t : Store}

theorem root_mem (h : SpaceForest d index base s) : Path.root ∈ (s.index d index).keys :=
  h.registry.mem_keys.2 ⟨⟨base⟩, h.root_made, h.root_path⟩

/-- Filing elements and writing elsewhere keep the forest. -/
theorem congr (h : SpaceForest d index base s) (hsize : t.nodes.size = s.nodes.size)
    (hindex : t.index d index = s.index d index) (hnodes : s.SameNodes t) :
    SpaceForest d index base t := by
  have hmade := Store.madeSince_eq_of_size hsize base
  refine ⟨h.registry.congr hsize hindex fun n => ⟨hnodes.path n, hnodes.role n⟩, hmade ▸ h.root_made,
    (hnodes.path _).trans h.root_path, ?_, ?_, ?_, ?_⟩
  · intro n hn
    rw [hmade] at hn
    exact (h.formed n hn).congr (hnodes.role n) (hnodes.name n) (hnodes.path n)
  · intro n hn m hm
    rw [hmade] at hn ⊢
    rw [hnodes.parent] at hm
    rw [hnodes.path, hnodes.path]
    exact h.above n hn m hm
  · intro m hm key c hc
    rw [hmade] at hm ⊢
    rw [hnodes.children] at hc
    rw [hnodes.parent, hnodes.name]
    exact h.below m hm key c hc
  · intro n hn m hm
    rw [hmade] at hn
    rw [hnodes.parent] at hm
    rw [hnodes.children, hnodes.name]
    exact h.kept n hn m hm

/-- The root alone is a forest. -/
theorem start (hsize : s.nodes.size = base + 1) (hnode : s.node ⟨base⟩ = .spaceRoot)
    (hindex : s.index d index = Ledger.empty.put Path.root (.node ⟨base⟩)) :
    SpaceForest d index base s := by
  have hregistry : Registry .spaces d index base s :=
    Registry.start (x := .spaceRoot) rfl hsize hnode hindex
  have hmade : (⟨base⟩ : NodeId) ∈ s.madeSince base := by
    rw [Store.madeSince_of_size_succ hsize]
    exact List.mem_singleton_self _
  have honly : ∀ n ∈ s.madeSince base, n = ⟨base⟩ := by
    intro n hn
    rw [Store.madeSince_of_size_succ hsize] at hn
    exact List.mem_singleton.1 hn
  refine ⟨hregistry, hmade, ?_, ?_, ?_, ?_, ?_⟩
  · rw [hnode]
    rfl
  · intro n hn
    rw [honly n hn, hnode]
    exact Node.formed_spaceRoot
  · intro n hn m hm
    rw [honly n hn, hnode] at hm
    cases hm
  · intro m hm key c hc
    rw [honly m hm, hnode] at hc
    cases hc
  · intro n hn m hm
    rw [honly n hn, hnode] at hm
    cases hm

/-- The namespaces of the new forest are those of the old and the new one. -/
theorem mem_madeSince_withSpace (h : SpaceForest d index base s) {path : String} {n : NodeId} :
    n ∈ (s.withSpace d index path).madeSince base ↔ n ∈ s.madeSince base ∨ n = ⟨s.nodes.size⟩ := by
  have hmade : (s.withSpace d index path).madeSince base = s.madeSince base ++ [⟨s.nodes.size⟩] :=
    Store.madeSince_addNode h.registry.base_le _
  rw [hmade, List.mem_append, List.mem_singleton]

/-- A new namespace under a new path, not linked yet, keeps the forest. -/
theorem create (h : SpaceForest d index base s) {path : String}
    (hpath : path ∉ (s.index d index).keys) : SpaceForest d index base (s.withSpace d index path) := by
  have hnew : (s.withSpace d index path).node ⟨s.nodes.size⟩ = .ofPath path :=
    Store.node_addNode_self s _
  have hold : ∀ n ∈ s.madeSince base, (s.withSpace d index path).node n = s.node n := fun n hn =>
    Store.node_addNode_of_ne (Store.ne_size_of_mem_madeSince hn)
  have hmem : ∀ n ∈ s.madeSince base, n ∈ (s.withSpace d index path).madeSince base := fun n hn =>
    h.mem_madeSince_withSpace.2 (Or.inl hn)
  refine ⟨h.registry.create rfl hpath, hmem _ h.root_made, ?_, ?_, ?_, ?_, ?_⟩
  · rw [hold _ h.root_made]
    exact h.root_path
  · intro n hn
    rcases h.mem_madeSince_withSpace.1 hn with hn | rfl
    · rw [hold n hn]
      exact h.formed n hn
    · rw [hnew]
      exact Node.formed_ofPath path
  · intro n hn m hm
    rcases h.mem_madeSince_withSpace.1 hn with hn | rfl
    · rw [hold n hn] at hm ⊢
      obtain ⟨hmem_m, hup⟩ := h.above n hn m hm
      rw [hold m hmem_m]
      exact ⟨hmem m hmem_m, hup⟩
    · rw [hnew] at hm
      cases hm
  · intro m hm key c hc
    rcases h.mem_madeSince_withSpace.1 hm with hm | rfl
    · rw [hold m hm] at hc
      obtain ⟨hmem_c, hdown⟩ := h.below m hm key c hc
      rw [hold c hmem_c]
      exact ⟨hmem c hmem_c, hdown⟩
    · rw [hnew] at hc
      cases hc
  · intro n hn m hm
    rcases h.mem_madeSince_withSpace.1 hn with hn | rfl
    · rw [hold n hn] at hm ⊢
      rw [hold m (h.above n hn m hm).1]
      exact h.kept n hn m hm
    · rw [hnew] at hm
      cases hm

/-! ### Linking -/

section Link

variable {n m : NodeId}

/-- The new child stands under its name; an old child is not the new one, for it has a parent. -/
theorem below_addChild (h : SpaceForest d index base s) (hn : n ∈ s.madeSince base)
    (hfree : (s.node n).parent = none) {y c : NodeId} (hy : y ∈ s.madeSince base) {key : String}
    (hc : ((s.addChild m (s.node n).name n).node y).children.get? key = some c) :
    c ∈ s.madeSince base ∧ ((s.addChild m (s.node n).name n).node c).parent = some y ∧
      ((s.addChild m (s.node n).name n).node c).name = key := by
  rw [Store.children_addChild] at hc
  rw [Store.parent_addChild, Store.name_addChild]
  have hold : (s.node y).children.get? key = some c →
      c ∈ s.madeSince base ∧ (if c = n then some m else (s.node c).parent) = some y ∧
        (s.node c).name = key := by
    intro hc
    obtain ⟨hmem_c, hparent_c, hname_c⟩ := h.below y hy key c hc
    have hcn : c ≠ n := by
      rintro rfl
      rw [hfree] at hparent_c
      cases hparent_c
    rw [if_neg hcn]
    exact ⟨hmem_c, hparent_c, hname_c⟩
  by_cases hym : y = m
  · rw [if_pos hym, Ledger.get?_put] at hc
    split at hc
    · rename_i hkey
      cases hc
      rw [if_pos rfl, hym]
      exact ⟨hn, rfl, hkey⟩
    · exact hold hc
  · rw [if_neg hym] at hc
    exact hold hc

/-- The new child is kept, and a place where somebody was kept is not left empty. -/
theorem kept_addChild (h : SpaceForest d index base s) {x y : NodeId} (hx : x ∈ s.madeSince base)
    (hy : ((s.addChild m (s.node n).name n).node x).parent = some y) :
    ∃ c, ((s.addChild m (s.node n).name n).node y).children.get?
      ((s.addChild m (s.node n).name n).node x).name = some c := by
  rw [Store.parent_addChild] at hy
  rw [Store.children_addChild, Store.name_addChild]
  by_cases hxn : x = n
  · rw [if_pos hxn] at hy
    cases hy
    rw [if_pos rfl, hxn]
    exact ⟨n, Ledger.get?_put_self _ _ _⟩
  · rw [if_neg hxn] at hy
    obtain ⟨c, hc⟩ := h.kept x hx y hy
    split
    · rw [Ledger.get?_put]
      split
      · exact ⟨n, rfl⟩
      · exact ⟨c, hc⟩
    · exact ⟨c, hc⟩

/-- Hanging a namespace without a parent off the one above it keeps the forest. -/
theorem link (h : SpaceForest d index base s) (hn : n ∈ s.madeSince base)
    (hm : m ∈ s.madeSince base) (hfree : (s.node n).parent = none)
    (hup : Path.parentKey (s.node n).path = .ok (s.node m).path) :
    SpaceForest d index base (s.addChild m (s.node n).name n) := by
  have hmade := Store.madeSince_addChild hn hm (s.node n).name
  have hsize := Store.size_addChild (Store.mem_madeSince.1 hm).2 (Store.mem_madeSince.1 hn).2
    (s.node n).name
  have hpath := Store.path_addChild s m (s.node n).name n
  have hrole := Store.role_addChild s m (s.node n).name n
  refine ⟨h.registry.congr hsize rfl fun x => ⟨hpath x, hrole x⟩, hmade ▸ h.root_made,
    (hpath _).trans h.root_path, ?_, ?_, ?_, ?_⟩
  · intro x hx
    rw [hmade] at hx
    exact (h.formed x hx).congr (hrole x) (Store.name_addChild s m _ n x) (hpath x)
  · intro x hx y hy
    rw [hmade] at hx ⊢
    rw [Store.parent_addChild] at hy
    rw [hpath, hpath]
    split at hy
    · rename_i hxn
      cases hy
      rw [hxn]
      exact ⟨hm, hup⟩
    · exact h.above x hx y hy
  · intro y hy key c hc
    rw [hmade] at hy ⊢
    exact h.below_addChild hn hfree hy hc
  · intro x hx y hy
    rw [hmade] at hx
    exact h.kept_addChild hx hy

end Link

/-- A settled namespace with a path above it hangs off the namespace at that path. -/
theorem parent_of_settled (h : SpaceForest d index base s) {n : NodeId} (hn : n ∈ s.madeSince base)
    (hsettled : s.Settled n) {above : String} (hup : Path.parentKey (s.node n).path = .ok above) :
    ∃ m ∈ s.madeSince base, (s.node n).parent = some m ∧ (s.node m).path = above := by
  rcases hsettled with hsome | hnone
  · obtain ⟨m, hm⟩ := Option.isSome_iff_exists.1 hsome
    obtain ⟨hmem, habove⟩ := h.above n hn m hm
    rw [hup] at habove
    cases habove
    exact ⟨m, hmem, hm, rfl⟩
  · exact absurd hup (hnone above)

end SpaceForest

end Docset
