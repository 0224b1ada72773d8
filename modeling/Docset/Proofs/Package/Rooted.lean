/-
  The root of a mapping of packages.

  Elements may be bound into a mapping that holds the root, or into an empty one, where the root is made
  along the way.  What is under the key of the root afterwards?

  1. Once there is an entry, it stays.  The root of a mapping is looked up, never made again, and every
     other package has a longer path (`Path.child_ne_root`), so nothing else is entered under the key
     (`PackagesRooted.create`).  An element whose package name is empty is bound to that entry.
  2. In an empty mapping the root is made, and then the walk goes down along the name.  An EMPTY name is
     one part, which is empty: the walk goes down one step more, to a child without a name, whose path is
     the root's own, and this child takes the entry of the root (`growPackage_first`).

  So the entry is a root without a parent exactly if the root was given or the first name is not empty
  (`bindEvents_root`).
-/
import Docset.Proofs.Package.Picture

namespace Docset

open Build

/-! ## What a step of binding follows -/

/-- Below something, or under a name, there is no path of the root. -/
theorem Path.child_ne_root {path name : String} (h : path ≠ "" ∨ name ≠ "") : child path name ≠ root := by
  intro hroot
  have hlist := congrArg String.toList hroot
  rw [toList_child] at hlist
  have hlength := congrArg List.length hlist
  rw [List.length_append, List.length_cons] at hlength
  have hone : root.toList.length = 1 := rfl
  have hpath : path.toList = [] := List.length_eq_zero_iff.1 (by omega)
  have hname : name.toList = [] := List.length_eq_zero_iff.1 (by omega)
  rcases h with h | h
  · exact h (String.toList_eq_nil_iff.1 hpath)
  · exact h (String.toList_eq_nil_iff.1 hname)

/-- The nodes made since row `base` are packages, and neither the index nor a child leads out of them. -/
structure PackagesHeld (d : SetId) (index : String) (base : Nat) (s : Store) : Prop where
  base_le : base ≤ s.nodes.size
  tree : ∀ n ∈ s.madeSince base, (s.node n).tree = .packages
  below : ∀ n ∈ s.madeSince base, ∀ key c, (s.node n).children.get? key = some c → c ∈ s.madeSince base
  entry : ∀ key entry, (s.index d index).get? key = some entry →
    ∃ n ∈ s.madeSince base, entry = .node n

/-- The entry of the root is the node `r`; whether it is a root by its looks is told by `top`. -/
structure PackagesRooted (d : SetId) (index : String) (base : Nat) (r : NodeId) (top : Prop)
    (s : Store) : Prop extends PackagesHeld d index base s where
  made : r ∈ s.madeSince base
  root : (s.index d index).get? Path.root = some (.node r)
  path : (s.node r).path = Path.root
  top : ((s.node r).name = Path.root ∧ (s.node r).parent = none) ↔ top

section Held

variable {d : SetId} {index : String} {base : Nat} {s t : Store} {m r : NodeId} {name path : String}
  {top : Prop}

theorem index_withPackage : (s.withPackage d index m name path).index d index =
    (s.index d index).put path (.node ⟨s.nodes.size⟩) := by
  rw [Store.withPackage, Store.index_putEntry, if_pos rfl]
  rfl

namespace PackagesHeld

/-- In an empty mapping, before any package is made, there is nothing to lead out of. -/
theorem empty (hbase : base ≤ s.nodes.size) (hmade : s.madeSince base = [])
    (hindex : s.index d index = .empty) : PackagesHeld d index base s := by
  refine ⟨hbase, ?_, ?_, ?_⟩
  · simp [hmade]
  · simp [hmade]
  · intro key entry hget
    rw [hindex] at hget
    cases hget

theorem lookUp_cases (h : PackagesHeld d index base s) (key : String) :
    (∃ n ∈ s.madeSince base, (s.index d index).get? key = some (.node n) ∧
      s.lookUp .packages d index key = .ok (some n)) ∨
    (key ∉ (s.index d index).keys ∧ s.lookUp .packages d index key = .ok none) := by
  cases hget : (s.index d index).get? key with
  | none =>
    have hkey := Ledger.get?_eq_none_iff.1 hget
    exact Or.inr ⟨hkey, Registry.lookUp_of_not_mem hkey⟩
  | some entry =>
    obtain ⟨n, hn, rfl⟩ := h.entry key entry hget
    refine Or.inl ⟨n, hn, rfl, ?_⟩
    rw [Store.lookUp, hget]
    exact if_pos (h.tree n hn)

/-- Changes that leave nodes but for their members, and the index, alone. -/
theorem congr (h : PackagesHeld d index base s) (hsize : t.nodes.size = s.nodes.size)
    (hindex : t.index d index = s.index d index) (hnodes : s.SameNodes t) :
    PackagesHeld d index base t := by
  have hmade := Store.madeSince_eq_of_size hsize base
  refine ⟨hsize ▸ h.base_le, ?_, ?_, ?_⟩
  · intro n hn
    rw [hmade] at hn
    rw [Node.tree, hnodes.role]
    exact h.tree n hn
  · intro n hn key c hc
    rw [hmade] at hn ⊢
    rw [hnodes.children] at hc
    exact h.below n hn key c hc
  · rw [hmade, hindex]
    exact h.entry

/-- Making a package below another one. -/
theorem create (h : PackagesHeld d index base s) (hm : m ∈ s.madeSince base) (name path : String) :
    PackagesHeld d index base (s.withPackage d index m name path) := by
  have hmem : ∀ n, n ∈ (s.withPackage d index m name path).madeSince base ↔
      n ∈ s.madeSince base ∨ n = ⟨s.nodes.size⟩ := fun n => PackageForest.mem_madeSince_withPackage hm
  refine ⟨?_, ?_, ?_, ?_⟩
  · rw [PackageForest.size_withPackage hm]
    exact Nat.le_succ_of_le h.base_le
  · intro n hn
    rcases (hmem n).1 hn with hn | rfl
    · rw [PackageForest.node_withPackage_of_made hn]
      exact h.tree n hn
    · rw [PackageForest.node_withPackage_self hm]
      rfl
  · intro n hn key c hc
    rcases (hmem n).1 hn with hn | rfl
    · rw [PackageForest.node_withPackage_of_made hn] at hc
      have hold : (s.node n).children.get? key = some c →
          c ∈ (s.withPackage d index m name path).madeSince base := fun hc =>
        (hmem c).2 (Or.inl (h.below n hn key c hc))
      by_cases hnm : n = m
      · rw [if_pos hnm, Ledger.get?_put] at hc
        split at hc
        · cases hc
          exact (hmem _).2 (Or.inr rfl)
        · exact hold hc
      · rw [if_neg hnm] at hc
        exact hold hc
    · rw [PackageForest.node_withPackage_self hm] at hc
      cases hc
  · intro key entry hget
    rw [index_withPackage, Ledger.get?_put] at hget
    split at hget
    · cases hget
      exact ⟨_, (hmem _).2 (Or.inr rfl), rfl⟩
    · obtain ⟨n, hn, rfl⟩ := h.entry key entry hget
      exact ⟨n, (hmem n).2 (Or.inl hn), rfl⟩

/-- Making the root of a mapping that has none. -/
theorem rooted (h : PackagesHeld d index base s) :
    PackagesRooted d index base ⟨s.nodes.size⟩ True
      ((s.addNode .packageRoot).1.putEntry d index Path.root (.node ⟨s.nodes.size⟩)) := by
  have hmade : ((s.addNode .packageRoot).1.putEntry d index Path.root
      (.node ⟨s.nodes.size⟩)).madeSince base = s.madeSince base ++ [⟨s.nodes.size⟩] :=
    Store.madeSince_addNode h.base_le _
  have hself : ((s.addNode .packageRoot).1.putEntry d index Path.root
      (.node ⟨s.nodes.size⟩)).node ⟨s.nodes.size⟩ = .packageRoot := Store.node_addNode_self s _
  have hold : ∀ n ∈ s.madeSince base, ((s.addNode .packageRoot).1.putEntry d index Path.root
      (.node ⟨s.nodes.size⟩)).node n = s.node n := fun n hn =>
    Store.node_addNode_of_ne (Store.ne_size_of_mem_madeSince hn)
  have hindex : ((s.addNode .packageRoot).1.putEntry d index Path.root
      (.node ⟨s.nodes.size⟩)).index d index =
        (s.index d index).put Path.root (.node ⟨s.nodes.size⟩) := by
    rw [Store.index_putEntry, if_pos rfl]
    rfl
  generalize (s.addNode .packageRoot).1.putEntry d index Path.root (.node ⟨s.nodes.size⟩) = t
    at hmade hself hold hindex
  have hmem : ∀ n, n ∈ t.madeSince base ↔ n ∈ s.madeSince base ∨ n = ⟨s.nodes.size⟩ := by
    intro n
    rw [hmade, List.mem_append, List.mem_singleton]
  have hnew : (⟨s.nodes.size⟩ : NodeId) ∈ t.madeSince base := (hmem _).2 (Or.inr rfl)
  refine ⟨⟨?_, ?_, ?_, ?_⟩, hnew, ?_, ?_, ?_⟩
  · have hrow := Store.mem_madeSince.1 hnew
    omega
  · intro n hn
    rcases (hmem n).1 hn with hn | rfl
    · rw [hold n hn]
      exact h.tree n hn
    · rw [hself]
      rfl
  · intro n hn key c hc
    rcases (hmem n).1 hn with hn | rfl
    · rw [hold n hn] at hc
      exact (hmem c).2 (Or.inl (h.below n hn key c hc))
    · rw [hself] at hc
      cases hc
  · intro key entry hget
    rw [hindex, Ledger.get?_put] at hget
    split at hget
    · cases hget
      exact ⟨_, hnew, rfl⟩
    · obtain ⟨n, hn, rfl⟩ := h.entry key entry hget
      exact ⟨n, (hmem n).2 (Or.inl hn), rfl⟩
  · rw [hindex, Ledger.get?_put_self]
  · rw [hself]
    rfl
  · rw [hself]
    exact iff_true_intro ⟨rfl, rfl⟩

end PackagesHeld

namespace PackagesRooted

theorem congr (h : PackagesRooted d index base r top s) (hsize : t.nodes.size = s.nodes.size)
    (hindex : t.index d index = s.index d index) (hnodes : s.SameNodes t) :
    PackagesRooted d index base r top t := by
  refine ⟨h.toPackagesHeld.congr hsize hindex hnodes, ?_, ?_, ?_, ?_⟩
  · rw [Store.madeSince_eq_of_size hsize base]
    exact h.made
  · rw [hindex]
    exact h.root
  · rw [hnodes.path]
    exact h.path
  · rw [hnodes.name, hnodes.parent]
    exact h.top

/-- **The entry of the root stays** when a package is made under another path: it may get a child, but no
    parent. -/
theorem create (h : PackagesRooted d index base r top s) (hm : m ∈ s.madeSince base)
    (hpath : path ≠ Path.root) :
    PackagesRooted d index base r top (s.withPackage d index m name path) := by
  refine ⟨h.toPackagesHeld.create hm name path, ?_, ?_, ?_, ?_⟩
  · exact (PackageForest.mem_madeSince_withPackage hm).2 (Or.inl h.made)
  · rw [index_withPackage, Ledger.get?_put_of_ne hpath]
    exact h.root
  · rw [PackageForest.node_withPackage_of_made h.made]
    exact h.path
  · rw [PackageForest.node_withPackage_of_made h.made]
    exact h.top

end PackagesRooted

end Held

/-! ## One step -/

section Steps

variable {d : SetId} {index : String} {base : Nat} {r : NodeId} {top : Prop}

/-- A step down to a path that is not the root's. -/
theorem openChild_rooted {ε : Type} {s : Store} (h : PackagesRooted d index base r top s) {m : NodeId}
    (hm : m ∈ s.madeSince base) {path : String} (hpath : path ≠ Path.root) (name : String) :
    Ensures (openChild d index m path name : Build ε NodeId) s fun n t =>
      PackagesRooted d index base r top t ∧ n ∈ t.madeSince base ∧ t.elements = s.elements := by
  rw [openChild, ensures_bind, ensures_get]
  cases hchild : (s.node m).children.get? (childKey name) with
  | some c =>
    rw [ensures_pure]
    exact ⟨h, h.below m hm _ c hchild, rfl⟩
  | none =>
    rw [ensures_bind, ensures_addNode, ensures_bind, ensures_change, ensures_bind, ensures_change]
    show Ensures _ (s.withPackage d index m name path) _
    rw [ensures_bind, ensures_debug, ensures_pure]
    have hmade : (⟨s.nodes.size⟩ : NodeId) ∈ (s.withPackage d index m name path).madeSince base :=
      (PackageForest.mem_madeSince_withPackage hm).2 (Or.inr rfl)
    exact ⟨(h.create hm hpath).congr rfl rfl fun _ => rfl, hmade, rfl⟩

/-- **Going down** from the root along names of which the first is not empty, or from below it. -/
theorem descend_rooted {ε : Type} (names : List String) :
    ∀ (s : Store) (m : NodeId) (path : String), PackagesRooted d index base r top s →
      m ∈ s.madeSince base → path ≠ "" ∨ names.head? ≠ some "" →
      Ensures (descend d index m path names : Build ε NodeId) s fun n t =>
        PackagesRooted d index base r top t ∧ n ∈ t.madeSince base ∧ t.elements = s.elements := by
  induction names with
  | nil =>
    intro s m path h hm _
    rw [descend, ensures_pure]
    exact ⟨h, hm, rfl⟩
  | cons name names ih =>
    intro s m path h hm hpath
    have hchild : Path.child path name ≠ Path.root :=
      Path.child_ne_root (hpath.imp id fun hname heq => hname (congrArg some heq))
    have hbelow : Path.child path name ≠ "" := by
      intro hempty
      have hlist := congrArg String.toList hempty
      rw [Path.toList_child] at hlist
      exact List.append_ne_nil_of_right_ne_nil _ (List.cons_ne_nil _ _) hlist
    rw [descend, ensures_bind]
    refine (openChild_rooted h hm hchild name).mono fun c t ht => ?_
    refine (ih t c _ ht.1 ht.2.1 (Or.inl hbelow)).mono fun n u hu => ?_
    exact ⟨hu.1, hu.2.1, hu.2.2.trans ht.2.2⟩

/-- A package that is missing is made below the entry of the root. -/
theorem growPackage_rooted {s : Store} (h : PackagesRooted d index base r top s) {name : String}
    (hname : (packageParts name).head? ≠ some "") :
    Ensures (growPackage d index name) s fun n t =>
      PackagesRooted d index base r top t ∧ n ∈ t.madeSince base ∧ t.elements = s.elements := by
  have hfound : s.lookUp .packages d index Path.root = .ok (some r) := by
    rw [Store.lookUp, h.root]
    exact if_pos (h.tree r h.made)
  rw [growPackage, ensures_bind, openPackageRoot, ensures_bind, ensures_lookUp]
  refine ⟨some r, hfound, ?_⟩
  rw [ensures_pure]
  exact descend_rooted _ s r "" h h.made (Or.inr hname)

/-- **The first package of a mapping.**  The root is made; then an empty name leads to a child of it that
    takes its entry, and any other name leaves it there. -/
theorem growPackage_first {s : Store} (h : PackagesHeld d index base s)
    (hnone : Path.root ∉ (s.index d index).keys) {name : String}
    (hname : name ≠ "" → (packageParts name).head? ≠ some "") :
    Ensures (growPackage d index name) s fun n t =>
      ∃ r, PackagesRooted d index base r (name ≠ "") t ∧ n ∈ t.madeSince base ∧
        (name = "" → n = r) ∧ t.elements = s.elements := by
  rw [growPackage, ensures_bind, openPackageRoot, ensures_bind, ensures_lookUp]
  refine ⟨none, Registry.lookUp_of_not_mem hnone, ?_⟩
  rw [ensures_bind, ensures_addNode, ensures_bind, ensures_change, ensures_pure]
  have hroot := h.rooted
  have helements : ((s.addNode .packageRoot).1.putEntry d index Path.root
      (.node ⟨s.nodes.size⟩)).elements = s.elements := rfl
  have hself : ((s.addNode .packageRoot).1.putEntry d index Path.root
      (.node ⟨s.nodes.size⟩)).node ⟨s.nodes.size⟩ = .packageRoot := Store.node_addNode_self s _
  generalize (s.addNode .packageRoot).1.putEntry d index Path.root (.node ⟨s.nodes.size⟩) = t
    at hroot helements hself
  by_cases hempty : name = ""
  · subst hempty
    show Ensures (descend d index ⟨s.nodes.size⟩ "" [""]) t _
    rw [descend, ensures_bind, openChild, ensures_bind, ensures_get, hself]
    dsimp only [Node.packageRoot, Node.single]
    rw [Ledger.get?_empty]
    dsimp only
    rw [ensures_bind, ensures_addNode, ensures_bind, ensures_change, ensures_bind, ensures_change]
    show Ensures _ (t.withPackage d index ⟨s.nodes.size⟩ "" Path.root) _
    rw [ensures_bind, ensures_debug, ensures_pure, descend, ensures_pure]
    have hheld := hroot.toPackagesHeld.create hroot.made "" Path.root
    have hnew : (t.withPackage d index ⟨s.nodes.size⟩ "" Path.root).node ⟨t.nodes.size⟩ =
        { Node.single .package "" Path.root with parent := some ⟨s.nodes.size⟩ } :=
      PackageForest.node_withPackage_self hroot.made
    have hmade : (⟨t.nodes.size⟩ : NodeId) ∈
        (t.withPackage d index ⟨s.nodes.size⟩ "" Path.root).madeSince base :=
      (PackageForest.mem_madeSince_withPackage hroot.made).2 (Or.inr rfl)
    refine ⟨⟨t.nodes.size⟩, ?_, hmade, fun _ => rfl, helements⟩
    refine ⟨hheld.congr rfl rfl fun _ => rfl, hmade, ?_, ?_, ?_⟩
    · show ((t.withPackage d index ⟨s.nodes.size⟩ "" Path.root).index d index).get? Path.root = _
      rw [index_withPackage, Ledger.get?_put_self]
    · show ((t.withPackage d index ⟨s.nodes.size⟩ "" Path.root).node ⟨t.nodes.size⟩).path = _
      rw [hnew]
      rfl
    · show ((t.withPackage d index ⟨s.nodes.size⟩ "" Path.root).node ⟨t.nodes.size⟩).name = _ ∧
        ((t.withPackage d index ⟨s.nodes.size⟩ "" Path.root).node ⟨t.nodes.size⟩).parent = none ↔ _
      rw [hnew]
      simp [Node.single, Path.root]
  · refine (descend_rooted _ t ⟨s.nodes.size⟩ "" hroot hroot.made (Or.inr (hname hempty))).mono ?_
    rintro n u ⟨hu, hn, hsame⟩
    refine ⟨⟨s.nodes.size⟩, ?_, hn, fun heq => absurd heq hempty, hsame.trans helements⟩
    exact { hu with top := hu.top.trans (iff_of_true trivial hempty) }

end Steps

/-! ## Binding -/

/-- The elements have the tags and the kinds that they had. -/
def Store.SameTags (s t : Store) : Prop :=
  ∀ e, (t.element e).tags = (s.element e).tags ∧ (t.element e).kind = (s.element e).kind

namespace Store.SameTags

variable {s t u : Store}

theorem of_elements (h : t.elements = s.elements) : s.SameTags t := by
  intro e
  rw [Store.element, Store.element, h]
  exact ⟨rfl, rfl⟩

theorem trans (hst : s.SameTags t) (htu : t.SameTags u) : s.SameTags u := fun e =>
  ⟨(htu e).1.trans (hst e).1, (htu e).2.trans (hst e).2⟩

/-- The name of a package is that of the tags. -/
theorem packageName (h : s.SameTags t) (e : ElementId) :
    (t.element e).packageName = (s.element e).packageName := by
  have htags := (h e).1
  simp only [Element.packageName, Element.packageText, Element.firstTag, htags]

theorem bindToPackage (s : Store) (e : ElementId) (n : NodeId) : s.SameTags (s.bindToPackage e n) := by
  intro x
  rw [Store.bindToPackage, element_bindAt]
  split
  · exact ⟨rfl, rfl⟩
  · exact ⟨rfl, rfl⟩

end Store.SameTags

/-- An element gets other tags. -/
def Store.retag (s : Store) (e : ElementId) (tags : List Tag) : Store :=
  s.updateElement e fun element => { element with tags := tags }

/-- What a run of events binds: each element with the name that its tags give it at the time. -/
def Store.bindings (s : Store) : List PackageEvent → List (ElementId × String)
  | [] => []
  | .bind es :: events => es.map (fun e => (e, (s.element e).packageName)) ++ s.bindings events
  | .retag e tags :: events => (s.retag e tags).bindings events

/-- The elements whose last binding was under the empty name are bound to `r`. -/
def Store.BoundAtRoot (s : Store) (bindings : List (ElementId × String)) (r : NodeId) : Prop :=
  ∀ e, (Ledger.ofList bindings).get? e = some "" → (s.element e).package = .node r

/-- The mapping after some bindings: it is empty and there were none, or its root has an entry, whose looks
    go by whether the root was given and by the first name. -/
def Store.RootedBy (s : Store) (d : SetId) (index : String) (base : Nat) (given : Bool)
    (bindings : List (ElementId × String)) : Prop :=
  (given = false ∧ bindings = [] ∧ base ≤ s.nodes.size ∧ s.madeSince base = [] ∧
    s.index d index = .empty) ∨
  ((given = true ∨ bindings ≠ []) ∧ ∃ r, PackagesRooted d index base r
    (given = true ∨ ∃ first, bindings.head? = some first ∧ first.2 ≠ "") s ∧ s.BoundAtRoot bindings r)

section Binding

variable {d : SetId} {index : String} {base : Nat} {given : Bool} {s t : Store}
  {bindings : List (ElementId × String)}

/-- One more binding, and the elements that were bound under the empty name are still at the root. -/
theorem Store.BoundAtRoot.concat {r n : NodeId} {e : ElementId} {name : String}
    (h : s.BoundAtRoot bindings r) (helements : t.elements = s.elements) (hname : name = "" → n = r) :
    (t.bindToPackage e n).BoundAtRoot (bindings ++ [(e, name)]) r := by
  intro x hx
  rw [Ledger.ofList_concat, Ledger.get?_put] at hx
  rw [package_bindToPackage]
  by_cases hxe : x = e
  · rw [if_pos hxe.symm] at hx
    rw [if_pos hxe, hname (Option.some.inj hx)]
  · rw [if_neg (Ne.symm hxe)] at hx
    rw [if_neg hxe, Store.element, helements]
    exact h x hx

theorem PackagesRooted.bindToPackage {r n : NodeId} {top : Prop}
    (h : PackagesRooted d index base r top s) (hn : n ∈ s.madeSince base) (e : ElementId) :
    PackagesRooted d index base r top (s.bindToPackage e n) :=
  h.congr (size_bindAt (Store.mem_madeSince.1 hn).2) rfl (sameNodes_bindAt s e n _)

/-- **One step of binding**, into a mapping that is empty or has an entry for the root. -/
theorem bindPackage_rooted (h : s.RootedBy d index base given bindings) {e : ElementId}
    (hkind : (s.element e).kind ∈ Tree.packages.kinds) :
    Ensures (bindPackage d index e) s fun _ t =>
      t.RootedBy d index base given (bindings ++ [(e, (s.element e).packageName)]) ∧ s.SameTags t := by
  -- Wherever the package comes from, the rest of the step is the same.
  have hbind : ∀ t r n top, PackagesRooted d index base r top t → n ∈ t.madeSince base →
      ((s.element e).packageName = "" → n = r) → t.elements = s.elements →
      s.BoundAtRoot bindings r →
      (top ↔ given = true ∨ ∃ first, (bindings ++ [(e, (s.element e).packageName)]).head? = some first ∧
        first.2 ≠ "") →
      Ensures (do
        change (·.updateElement e fun element => { element with package := .node n })
        fileAt n e) t fun _ u =>
          u.RootedBy d index base given (bindings ++ [(e, (s.element e).packageName)]) ∧ s.SameTags u := by
    intro t r n top ht hn hname helements hbound htop
    refine ensures_bindAt (fun _ => rfl) ?_ ⟨Or.inr ⟨Or.inr (by simp), r, ?_, ?_⟩, ?_⟩
    · rw [Store.element, helements, ht.tree n hn]
      exact hkind
    · rw [← htop]
      exact ht.bindToPackage hn e
    · exact hbound.concat helements hname
    · exact (Store.SameTags.of_elements helements).trans (.bindToPackage t e n)
  have hparts := head?_packageParts (e := s.element e)
  rw [bindPackage, ensures_bind, ensures_get]
  dsimp only
  rw [ensures_bind, ensures_mapError, ensures_bind, ensures_lookUp]
  generalize hname : (s.element e).packageName = name at hbind hparts ⊢
  rcases h with ⟨rfl, rfl, hbase, hmade, hempty⟩ | ⟨hstarted, r, hrooted, hbound⟩
  · have hnone : ∀ key, key ∉ (s.index d index).keys := by
      intro key
      rw [hempty]
      exact List.not_mem_nil
    refine ⟨none, Registry.lookUp_of_not_mem (hnone _), ?_⟩
    refine (growPackage_first (.empty hbase hmade hempty) (hnone _) hparts).mono ?_
    rintro n t ⟨r, ht, hn, hroot, helements⟩
    refine hbind t r n _ ht hn hroot helements (fun x hx => by cases hx) ?_
    simp
  · have htop : (given = true ∨ ∃ first, bindings.head? = some first ∧ first.2 ≠ "") ↔ (given = true ∨
        ∃ first, (bindings ++ [(e, name)]).head? = some first ∧ first.2 ≠ "") := by
      rcases hstarted with hgiven | hne
      · simp [hgiven]
      · rw [List.head?_append_of_ne_nil _ hne]
    rcases hrooted.lookUp_cases (Path.root ++ name) with ⟨n, hn, hget, hfound⟩ | ⟨hnew, hmissing⟩
    · refine ⟨some n, hfound, ?_⟩
      rw [ensures_pure]
      refine hbind s r n _ hrooted hn (fun hempty => ?_) rfl hbound htop
      rw [hempty, String.append_empty, hrooted.root] at hget
      cases hget
      rfl
    · refine ⟨none, hmissing, ?_⟩
      have hname : name ≠ "" := by
        rintro rfl
        exact hnew (Ledger.mem_keys_iff.2 ⟨_, hrooted.root⟩)
      refine (growPackage_rooted hrooted (hparts hname)).mono ?_
      rintro n t ⟨ht, hn, helements⟩
      exact hbind t r n _ ht hn (fun hempty => absurd hempty hname) helements hbound htop

/-! ## Runs -/

/-- A call binds its elements, in order. -/
theorem bindPackages_rooted (h : s.RootedBy d index base given bindings) {es : List ElementId}
    (hkinds : ∀ e ∈ es, (s.element e).kind ∈ Tree.packages.kinds) :
    Ensures (bindPackages d index es) s fun _ t =>
      t.RootedBy d index base given (bindings ++ es.map fun e => (e, (s.element e).packageName)) ∧
        s.SameTags t := by
  refine ensures_forEach (fun done t => t.RootedBy d index base given
    (bindings ++ done.map fun e => (e, (s.element e).packageName)) ∧ s.SameTags t) ?_ ?_
  · rw [List.map_nil, List.append_nil]
    exact ⟨h, .of_elements rfl⟩
  · rintro done e rest t rfl ⟨ht, hsame⟩
    have hkind : (t.element e).kind ∈ Tree.packages.kinds := by
      rw [(hsame e).2]
      exact hkinds e (List.mem_append_right _ List.mem_cons_self)
    refine (bindPackage_rooted ht hkind).mono fun _ u hu => ⟨?_, hsame.trans hu.2⟩
    rw [List.map_append, ← List.append_assoc, List.map_singleton, ← hsame.packageName e]
    exact hu.1

/-- Other tags change nothing but what is bound later. -/
theorem Store.RootedBy.retag (h : s.RootedBy d index base given bindings) (e : ElementId)
    (tags : List Tag) : (s.retag e tags).RootedBy d index base given bindings := by
  rcases h with hstart | ⟨hstarted, r, hrooted, hbound⟩
  · exact Or.inl hstart
  · refine Or.inr ⟨hstarted, r, hrooted.congr rfl rfl fun _ => rfl, fun x hx => ?_⟩
    rw [Store.retag, Store.element_updateElement]
    split
    · exact hbound x hx
    · exact hbound x hx

/-- Two stores with the same tags have the same tags after an element got others. -/
theorem Store.SameTags.retag (h : s.SameTags t) (e : ElementId) (tags : List Tag) :
    (s.retag e tags).SameTags (t.retag e tags) := by
  intro x
  rw [Store.retag, Store.retag, Store.element_updateElement, Store.element_updateElement]
  by_cases hx : x = e
  · rw [if_pos hx, if_pos hx]
    exact ⟨rfl, (h x).2⟩
  · rw [if_neg hx, if_neg hx]
    exact h x

theorem Store.kind_retag (s : Store) (e : ElementId) (tags : List Tag) (x : ElementId) :
    ((s.retag e tags).element x).kind = (s.element x).kind := by
  rw [Store.retag, Store.element_updateElement]
  split
  · rfl
  · rfl

/-- **A run of events** makes the bindings that the tags of the moment ask for. -/
theorem bindEvents_rooted (events : List PackageEvent) :
    ∀ (s t : Store) (bindings : List (ElementId × String)), s.SameTags t →
      t.RootedBy d index base given bindings →
      (∀ event ∈ events, ∀ e ∈ event.bound, (s.element e).kind ∈ Tree.packages.kinds) →
      Ensures (forEach (PackageEvent.run d index) events) t fun _ u =>
        u.RootedBy d index base given (bindings ++ s.bindings events) := by
  induction events with
  | nil =>
    intro s t bindings _ ht _
    rw [forEach, ensures_pure, Store.bindings, List.append_nil]
    exact ht
  | cons event events ih =>
    intro s t bindings hsame ht hkinds
    have hfirst := hkinds event List.mem_cons_self
    have hrest := fun ev hev => hkinds ev (List.mem_cons_of_mem event hev)
    rw [forEach, ensures_bind]
    cases event with
    | bind es =>
      have hkinds_t : ∀ e ∈ es, (t.element e).kind ∈ Tree.packages.kinds := by
        intro e he
        rw [(hsame e).2]
        exact hfirst e he
      refine (bindPackages_rooted ht hkinds_t).mono ?_
      rintro _ u ⟨hu, htags⟩
      have hnames : es.map (fun e => (e, (t.element e).packageName)) =
          es.map fun e => (e, (s.element e).packageName) :=
        List.map_congr_left fun e _ => by rw [hsame.packageName e]
      rw [hnames] at hu
      rw [Store.bindings, ← List.append_assoc]
      exact ih s u _ (hsame.trans htags) hu hrest
    | retag e tags =>
      rw [PackageEvent.run, ensures_change, Store.bindings]
      refine ih (s.retag e tags) (t.retag e tags) bindings (hsame.retag e tags) (ht.retag e tags) ?_
      intro ev hev x hx
      rw [Store.kind_retag]
      exact hrest ev hev x hx

end Binding

/-! ## The theorem -/

/-- The store with a mapping to begin with: a fresh root alone if it is given, and else nothing. -/
def Store.startMapping (s : Store) (d : SetId) (index : String) (given : Bool) : Store :=
  if given then s.freshMapping d index else s.setIndex d index .empty

section Theorem

variable {s : Store} {d : SetId} {index : String} {given : Bool}

theorem Store.RootedBy.start (s : Store) (d : SetId) (index : String) (given : Bool) :
    (s.startMapping d index given).RootedBy d index s.nodes.size given [] ∧
      s.SameTags (s.startMapping d index given) := by
  cases given with
  | false =>
    refine ⟨Or.inl ⟨rfl, rfl, Nat.le_refl _, Store.madeSince_of_size_le (Nat.le_refl _), ?_⟩,
      .of_elements rfl⟩
    show (s.setIndex d index .empty).index d index = .empty
    rw [Store.index_setIndex, if_pos rfl]
  | true =>
    have hfresh := PackagesKept.fresh s d index
    have hregistry := hfresh.forest.registry
    have hnode : (s.freshMapping d index).node ⟨s.nodes.size⟩ = .packageRoot :=
      Store.node_addNode_self s _
    refine ⟨Or.inr ⟨Or.inl rfl, ⟨s.nodes.size⟩, ⟨⟨hregistry.base_le, hregistry.tree_eq, ?_, ?_⟩,
      hfresh.forest.root_made, ?_, hfresh.forest.root_path, ?_⟩, fun e he => by cases he⟩,
      .of_elements rfl⟩
    · intro n hn key c hc
      exact (hfresh.forest.below n hn key c hc).1
    · intro key entry hget
      obtain ⟨n, hn, -, heq⟩ := hregistry.of_get? hget
      exact ⟨n, hn, heq⟩
    · have hget := hregistry.get?_path hfresh.forest.root_made
      rw [hfresh.forest.root_path] at hget
      exact hget
    · show ((s.freshMapping d index).node ⟨s.nodes.size⟩).name = _ ∧
        ((s.freshMapping d index).node ⟨s.nodes.size⟩).parent = none ↔ _
      rw [hnode]
      simp [Node.packageRoot, Node.single]

/-- **The entry of the root** after any run of calls, with tags that change in between, once an element was
    bound.  There is one, and an element whose last binding was under the empty name is bound to it.  It is
    a root without a parent exactly if the mapping began with a root or the first element bound had a
    package name that is not empty. -/
theorem bindEvents_root {events : List PackageEvent} {first : ElementId × String}
    (hkinds : ∀ event ∈ events, ∀ e ∈ event.bound, (s.element e).kind ∈ Tree.packages.kinds)
    (hfirst : (s.bindings events).head? = some first) :
    Ensures (forEach (PackageEvent.run d index) events) (s.startMapping d index given) fun _ t =>
      ∃ r, (t.index d index).get? Path.root = some (.node r) ∧ (t.node r).path = Path.root ∧
        (∀ e, (Ledger.ofList (s.bindings events)).get? e = some "" → (t.element e).package = .node r) ∧
        ((t.node r).name = Path.root ∧ (t.node r).parent = none ↔ given = true ∨ first.2 ≠ "") := by
  obtain ⟨hstart, htags⟩ := Store.RootedBy.start s d index given
  refine (bindEvents_rooted events s _ [] htags hstart hkinds).mono fun _ t ht => ?_
  rw [List.nil_append] at ht
  rcases ht with ⟨-, hnone, -⟩ | ⟨-, r, hrooted, hbound⟩
  · rw [hnone] at hfirst
    cases hfirst
  · refine ⟨r, hrooted.root, hrooted.path, hbound, hrooted.top.trans ?_⟩
    simp [hfirst]

/-- A class without tags bound into an empty mapping: the entry of the root is not a root. -/
theorem bindEvents_root_nameless :
    let s := Store.ofDeclared [.declare .classType "\\X" "" (.path "") .unset]
    let events := [PackageEvent.bind [⟨1⟩]]
    (∀ event ∈ events, ∀ e ∈ event.bound, (s.element e).kind ∈ Tree.packages.kinds) ∧
      (s.bindings events).head? = some (⟨1⟩, "") ∧
      Ensures (forEach (PackageEvent.run ⟨0⟩ "packages") events) (s.startMapping ⟨0⟩ "packages" false)
        fun _ t => ∃ r, (t.index ⟨0⟩ "packages").get? Path.root = some (.node r) ∧
          (t.element ⟨1⟩).package = .node r ∧
          ¬ ((t.node r).name = Path.root ∧ (t.node r).parent = none) := by
  intro s events
  have hkinds : ∀ event ∈ events, ∀ e ∈ event.bound,
      (s.element e).kind ∈ Tree.packages.kinds := by decide
  have hfirst : (s.bindings events).head? = some (⟨1⟩, "") := by decide
  refine ⟨hkinds, hfirst, (bindEvents_root hkinds hfirst).mono ?_⟩
  rintro _ t ⟨r, hget, -, hbound, htop⟩
  refine ⟨r, hget, hbound ⟨1⟩ (by decide), fun hface => ?_⟩
  rcases htop.1 hface with hgiven | hname
  · cases hgiven
  · exact hname rfl

end Theorem

end Docset
