/-
  The tree of packages, while it grows.

  `PackageForest` is what holds of the packages at every moment of a build: they are registered under
  their paths, and the two ways in which the tree is written down, the parent of a node and the children
  of a node, are one relation.  The link between the index and the tree is the PLACE of a package, which
  its path says: a child stands one key below its parent.

  So a place belongs to one package at most (`PackageForest.eq_of_place`), whatever the paths are, and
  every place on the way to a package belongs to one (`PackageForest.made_on_way`).

  Packages are made linked, so a build changes nodes in two ways only:

  * `PackageForest.create` — a new package below another, under a key that was free;
  * `PackageForest.congr` — elements are filed, messages are recorded.
-/
import Docset.Proofs.Filing
import Docset.Proofs.Package.Place
import Docset.Proofs.Registry

namespace Docset

/-! ## The invariant -/

/-- The place of the package that a node stands for. -/
def Store.placeOf (s : Store) (n : NodeId) : List String := Path.place (s.node n).path

/-- The store with a package made below another and entered under its path. -/
def Store.withPackage (s : Store) (d : SetId) (index : String) (m : NodeId) (name path : String) :
    Store :=
  ((s.addNode (.single .package name path)).1.addChild m (childKey name) ⟨s.nodes.size⟩).putEntry
    d index path (.node ⟨s.nodes.size⟩)

/-- The packages made since row `base` are a tree under the index. -/
structure PackageForest (d : SetId) (index : String) (base : Nat) (s : Store) : Prop where
  registry : Registry .packages d index base s
  /-- The first package made is the root. -/
  root_made : ⟨base⟩ ∈ s.madeSince base
  root_path : (s.node ⟨base⟩).path = Path.root
  root_free : (s.node ⟨base⟩).parent = none
  /-- A path is put together from names. -/
  names : ∀ n ∈ s.madeSince base, ∃ names, Path.Names names ∧ (s.node n).path = Path.ofParts names
  /-- All but the root are called by the last name along their path. -/
  called : ∀ n ∈ s.madeSince base, n ≠ ⟨base⟩ →
    (Path.parts (s.node n).path).getLast? = some (s.node n).name
  /-- A child is a package of the tree, one key further down. -/
  below : ∀ m ∈ s.madeSince base, ∀ key c, (s.node m).children.get? key = some c →
    c ∈ s.madeSince base ∧ s.placeOf c = s.placeOf m ++ [key]
  /-- All but the root have a parent, which keeps them under their name. -/
  kept : ∀ n ∈ s.madeSince base, n ≠ ⟨base⟩ → ∃ m ∈ s.madeSince base, (s.node n).parent = some m ∧
    s.placeOf n = s.placeOf m ++ [childKey (s.node n).name] ∧
      (s.node m).children.get? (childKey (s.node n).name) = some n

namespace PackageForest

variable {d : SetId} {index : String} {base : Nat} {s t : Store}

/-! ## Places -/

theorem root_place (h : PackageForest d index base s) : s.placeOf ⟨base⟩ = [] := by
  rw [Store.placeOf, h.root_path]
  rfl

theorem place_ne_nil (h : PackageForest d index base s) {n : NodeId} (hn : n ∈ s.madeSince base)
    (hroot : n ≠ ⟨base⟩) : s.placeOf n ≠ [] := by
  obtain ⟨m, -, -, hplace, -⟩ := h.kept n hn hroot
  rw [hplace]
  exact List.append_ne_nil_of_right_ne_nil _ (List.cons_ne_nil _ _)

/-- A parent is a package of the tree, one key further up. -/
theorem above (h : PackageForest d index base s) {n m : NodeId} (hn : n ∈ s.madeSince base)
    (hm : (s.node n).parent = some m) :
    m ∈ s.madeSince base ∧ s.placeOf n = s.placeOf m ++ [childKey (s.node n).name] := by
  have hroot : n ≠ ⟨base⟩ := by
    rintro rfl
    rw [h.root_free] at hm
    cases hm
  obtain ⟨p, hp, hparent, hplace, -⟩ := h.kept n hn hroot
  rw [hm] at hparent
  cases hparent
  exact ⟨hp, hplace⟩

/-- **A place belongs to one package at most.** -/
theorem eq_of_place (h : PackageForest d index base s) {n n' : NodeId} (hn : n ∈ s.madeSince base)
    (hn' : n' ∈ s.madeSince base) (hplace : s.placeOf n = s.placeOf n') : n = n' := by
  -- By induction on the length of the place: the parents have one place, so they are one.
  have hlength : ∀ k, ∀ x ∈ s.madeSince base, ∀ y ∈ s.madeSince base, (s.placeOf x).length = k →
      s.placeOf x = s.placeOf y → x = y := by
    intro k
    induction k with
    | zero =>
      intro x hx y hy hlen hxy
      have hnil := List.length_eq_zero_iff.1 hlen
      have htop : ∀ z ∈ s.madeSince base, s.placeOf z = [] → z = ⟨base⟩ := fun z hz hempty =>
        Decidable.byContradiction fun hroot => h.place_ne_nil hz hroot hempty
      rw [htop x hx hnil, htop y hy (hxy ▸ hnil)]
    | succ k ih =>
      intro x hx y hy hlen hxy
      have hdeep : ∀ z, (s.placeOf z).length = k + 1 → z ≠ ⟨base⟩ := by
        rintro z hz rfl
        rw [h.root_place] at hz
        cases hz
      obtain ⟨p, hp, -, hplace_x, hkept_x⟩ := h.kept x hx (hdeep x hlen)
      obtain ⟨q, hq, -, hplace_y, hkept_y⟩ := h.kept y hy (hdeep y (hxy ▸ hlen))
      have hends : s.placeOf p ++ [childKey (s.node x).name] =
          s.placeOf q ++ [childKey (s.node y).name] := by
        rw [← hplace_x, ← hplace_y, hxy]
      obtain ⟨hpq, hkey⟩ := List.append_inj' hends rfl
      have hlen_p : (s.placeOf p).length = k := by
        rw [hplace_x, List.length_append, List.length_singleton] at hlen
        omega
      rw [ih p hp q hq hlen_p hpq, (List.cons.inj hkey).1, hkept_y] at hkept_x
      cases hkept_x
      rfl
  exact hlength _ n hn n' hn' rfl hplace

/-- The package one key below another is its child under that key. -/
theorem child_of_place (h : PackageForest d index base s) {m n : NodeId} (hm : m ∈ s.madeSince base)
    (hn : n ∈ s.madeSince base) {key : String} (hplace : s.placeOf n = s.placeOf m ++ [key]) :
    (s.node m).children.get? key = some n := by
  have hroot : n ≠ ⟨base⟩ := by
    rintro rfl
    rw [h.root_place] at hplace
    exact List.append_ne_nil_of_right_ne_nil _ (List.cons_ne_nil _ _) hplace.symm
  obtain ⟨p, hp, -, hplace_n, hkept⟩ := h.kept n hn hroot
  rw [hplace] at hplace_n
  obtain ⟨hpm, hkey⟩ := List.append_inj' hplace_n rfl
  rw [h.eq_of_place hm hp hpm, (List.cons.inj hkey).1]
  exact hkept

/-- Every place on the way to a package belongs to a package. -/
theorem made_on_way (h : PackageForest d index base s) {keys : List String} {n : NodeId}
    (hn : n ∈ s.madeSince base) (hway : keys <+: s.placeOf n) :
    ∃ m ∈ s.madeSince base, s.placeOf m = keys := by
  obtain ⟨rest, hrest⟩ := hway
  -- By induction on what is left of the place, from its end.
  have hstep : ∀ k, ∀ x ∈ s.madeSince base, ∀ rest, rest.length = k → keys ++ rest = s.placeOf x →
      ∃ m ∈ s.madeSince base, s.placeOf m = keys := by
    intro k
    induction k with
    | zero =>
      intro x hx rest hlen heq
      rw [List.length_eq_zero_iff.1 hlen, List.append_nil] at heq
      exact ⟨x, hx, heq.symm⟩
    | succ k ih =>
      intro x hx rest hlen heq
      have hroot : x ≠ ⟨base⟩ := by
        rintro rfl
        rw [h.root_place] at heq
        rw [(List.append_eq_nil_iff.1 heq).2] at hlen
        cases hlen
      obtain ⟨p, hp, -, hplace, -⟩ := h.kept x hx hroot
      have hne : rest ≠ [] := List.ne_nil_of_length_eq_add_one hlen
      refine ih p hp rest.dropLast ?_ ?_
      · rw [List.length_dropLast, hlen]
        rfl
      · rw [← List.dropLast_append_of_ne_nil hne, heq, hplace, List.dropLast_concat]
  exact hstep _ n hn rest rfl hrest

/-! ## What keeps the tree -/

/-- Filing elements and writing elsewhere keep the tree. -/
theorem congr (h : PackageForest d index base s) (hsize : t.nodes.size = s.nodes.size)
    (hindex : t.index d index = s.index d index) (hnodes : s.SameNodes t) :
    PackageForest d index base t := by
  have hmade := Store.madeSince_eq_of_size hsize base
  have hplace n : t.placeOf n = s.placeOf n := congrArg Path.place (hnodes.path n)
  refine ⟨h.registry.congr hsize hindex fun n => ⟨hnodes.path n, hnodes.role n⟩, hmade ▸ h.root_made,
    (hnodes.path _).trans h.root_path, (hnodes.parent _).trans h.root_free, ?_, ?_, ?_, ?_⟩
  · intro n hn
    rw [hmade] at hn
    rw [hnodes.path]
    exact h.names n hn
  · intro n hn hroot
    rw [hmade] at hn
    rw [hnodes.path, hnodes.name]
    exact h.called n hn hroot
  · intro m hm key c hc
    rw [hmade] at hm ⊢
    rw [hnodes.children] at hc
    rw [hplace, hplace]
    exact h.below m hm key c hc
  · intro n hn hroot
    rw [hmade] at hn
    obtain ⟨m, hm, hup, hup_place, hkept⟩ := h.kept n hn hroot
    refine ⟨m, hmade ▸ hm, ?_⟩
    rw [hnodes.parent, hplace, hplace, hnodes.name, hnodes.children]
    exact ⟨hup, hup_place, hkept⟩

/-- The root alone is a tree. -/
theorem start (hsize : s.nodes.size = base + 1) (hnode : s.node ⟨base⟩ = .packageRoot)
    (hindex : s.index d index = Ledger.empty.put Path.root (.node ⟨base⟩)) :
    PackageForest d index base s := by
  have hregistry : Registry .packages d index base s :=
    Registry.start (x := .packageRoot) rfl hsize hnode hindex
  have hmade : (⟨base⟩ : NodeId) ∈ s.madeSince base := by
    rw [Store.madeSince_of_size_succ hsize]
    exact List.mem_singleton_self _
  have honly : ∀ n ∈ s.madeSince base, n = ⟨base⟩ := by
    intro n hn
    rw [Store.madeSince_of_size_succ hsize] at hn
    exact List.mem_singleton.1 hn
  refine ⟨hregistry, hmade, ?_, ?_, ?_, ?_, ?_, ?_⟩
  · rw [hnode]
    rfl
  · rw [hnode]
    rfl
  · intro n hn
    rw [honly n hn, hnode]
    refine ⟨[], ⟨?_, ?_⟩, rfl⟩
    · intro name hname
      cases hname
    · intro hnone
      cases hnone
  · intro n hn hroot
    exact absurd (honly n hn) hroot
  · intro m hm key c hc
    rw [honly m hm, hnode] at hc
    cases hc
  · intro n hn hroot
    exact absurd (honly n hn) hroot

section Create

variable {m : NodeId} {name path : String}

theorem size_withPackage (hm : m ∈ s.madeSince base) :
    (s.withPackage d index m name path).nodes.size = s.nodes.size + 1 := by
  have hsize := Store.size_addNode s (.single .package name path)
  rw [Store.withPackage, Store.nodes_putEntry, ← hsize]
  refine Store.size_addChild ?_ ?_ _
  · rw [hsize]
    exact Nat.lt_succ_of_lt (Store.mem_madeSince.1 hm).2
  · rw [hsize]
    exact Nat.lt_succ_self _

theorem madeSince_withPackage (hm : m ∈ s.madeSince base) :
    (s.withPackage d index m name path).madeSince base = s.madeSince base ++ [⟨s.nodes.size⟩] := by
  have hbase : base ≤ s.nodes.size := by
    have hrow := Store.mem_madeSince.1 hm
    omega
  rw [← Store.madeSince_addNode hbase (.single .package name path)]
  exact Store.madeSince_eq_of_size
    ((size_withPackage hm).trans (Store.size_addNode s (.single .package name path)).symm) base

/-- The new package has nothing but its parent. -/
theorem node_withPackage_self (hm : m ∈ s.madeSince base) :
    (s.withPackage d index m name path).node ⟨s.nodes.size⟩ =
      { Node.single .package name path with parent := some m } := by
  have hne : (⟨s.nodes.size⟩ : NodeId) ≠ m := (Store.ne_size_of_mem_madeSince hm).symm
  rw [Store.withPackage, Store.node_putEntry, Store.node_addChild, if_pos rfl, if_neg hne,
    Store.node_addNode_self]

/-- The package above gets a child, and all others are as they were. -/
theorem node_withPackage_of_made {n : NodeId} (hn : n ∈ s.madeSince base) :
    (s.withPackage d index m name path).node n =
      { s.node n with
        children := if n = m then (s.node n).children.put (childKey name) ⟨s.nodes.size⟩
          else (s.node n).children } := by
  have hne : n ≠ ⟨s.nodes.size⟩ := Store.ne_size_of_mem_madeSince hn
  rw [Store.withPackage, Store.node_putEntry, Store.node_addChild, if_neg hne,
    Store.node_addNode_of_ne hne]

theorem mem_madeSince_withPackage (hm : m ∈ s.madeSince base) {n : NodeId} :
    n ∈ (s.withPackage d index m name path).madeSince base ↔
      n ∈ s.madeSince base ∨ n = ⟨s.nodes.size⟩ := by
  rw [madeSince_withPackage hm, List.mem_append, List.mem_singleton]

theorem placeOf_withPackage_of_made {n : NodeId} (hn : n ∈ s.madeSince base) :
    (s.withPackage d index m name path).placeOf n = s.placeOf n := by
  rw [Store.placeOf, node_withPackage_of_made hn]
  rfl

theorem placeOf_withPackage_self (hm : m ∈ s.madeSince base) :
    (s.withPackage d index m name path).placeOf ⟨s.nodes.size⟩ = Path.place path := by
  rw [Store.placeOf, node_withPackage_self hm]
  rfl

/-- Where a key is free, the path of the place under it is free: whoever had it would be the child. -/
theorem path_not_mem_keys (h : PackageForest d index base s) (hm : m ∈ s.madeSince base) {key : String}
    (hplace : Path.place path = s.placeOf m ++ [key]) (hfree : (s.node m).children.get? key = none) :
    path ∉ (s.index d index).keys := by
  intro hkey
  obtain ⟨n, hn, rfl⟩ := h.registry.mem_keys.1 hkey
  have hchild := h.child_of_place hm hn hplace
  rw [hfree] at hchild
  cases hchild

theorem registry_withPackage (h : PackageForest d index base s) (hm : m ∈ s.madeSince base)
    (hnew : path ∉ (s.index d index).keys) :
    Registry .packages d index base (s.withPackage d index m name path) := by
  have hentered := h.registry.create (x := .single .package name path) rfl hnew
  refine hentered.congr ?_ rfl fun n => ?_
  · exact (size_withPackage hm).trans (Store.size_addNode s _).symm
  · rw [Store.withPackage, Store.node_putEntry, Store.node_putEntry, Store.path_addChild,
      Store.role_addChild]
    exact ⟨rfl, rfl⟩

/-- The new package is one key below the one that it hangs off, and it has no children. -/
theorem below_withPackage (h : PackageForest d index base s) (hm : m ∈ s.madeSince base)
    (hplace : Path.place path = s.placeOf m ++ [childKey name]) {p c : NodeId}
    (hp : p ∈ (s.withPackage d index m name path).madeSince base) {key : String}
    (hc : ((s.withPackage d index m name path).node p).children.get? key = some c) :
    c ∈ (s.withPackage d index m name path).madeSince base ∧
      (s.withPackage d index m name path).placeOf c =
        (s.withPackage d index m name path).placeOf p ++ [key] := by
  rcases (mem_madeSince_withPackage hm).1 hp with hp | rfl
  · rw [node_withPackage_of_made hp] at hc
    rw [placeOf_withPackage_of_made hp]
    have hold : (s.node p).children.get? key = some c →
        c ∈ (s.withPackage d index m name path).madeSince base ∧
          (s.withPackage d index m name path).placeOf c = s.placeOf p ++ [key] := by
      intro hc
      obtain ⟨hmade_c, hplace_c⟩ := h.below p hp key c hc
      rw [placeOf_withPackage_of_made hmade_c]
      exact ⟨(mem_madeSince_withPackage hm).2 (Or.inl hmade_c), hplace_c⟩
    by_cases hpm : p = m
    · rw [if_pos hpm, Ledger.get?_put] at hc
      split at hc
      · rename_i hkey
        cases hc
        rw [placeOf_withPackage_self hm, hplace, hpm, hkey]
        exact ⟨(mem_madeSince_withPackage hm).2 (Or.inr rfl), rfl⟩
      · exact hold hc
    · rw [if_neg hpm] at hc
      exact hold hc
  · rw [node_withPackage_self hm] at hc
    cases hc

/-- Whoever was kept is kept still, for the new key was free; and the new package is kept under it. -/
theorem kept_withPackage (h : PackageForest d index base s) (hm : m ∈ s.madeSince base)
    (hplace : Path.place path = s.placeOf m ++ [childKey name])
    (hfree : (s.node m).children.get? (childKey name) = none) {n : NodeId}
    (hn : n ∈ (s.withPackage d index m name path).madeSince base) (hroot : n ≠ ⟨base⟩) :
    ∃ p ∈ (s.withPackage d index m name path).madeSince base,
      ((s.withPackage d index m name path).node n).parent = some p ∧
      (s.withPackage d index m name path).placeOf n =
        (s.withPackage d index m name path).placeOf p ++
          [childKey ((s.withPackage d index m name path).node n).name] ∧
      ((s.withPackage d index m name path).node p).children.get?
        (childKey ((s.withPackage d index m name path).node n).name) = some n := by
  rcases (mem_madeSince_withPackage hm).1 hn with hn | rfl
  · obtain ⟨p, hp, hup, hup_place, hkept⟩ := h.kept n hn hroot
    refine ⟨p, (mem_madeSince_withPackage hm).2 (Or.inl hp), ?_⟩
    rw [placeOf_withPackage_of_made hn, placeOf_withPackage_of_made hp, node_withPackage_of_made hn,
      node_withPackage_of_made hp]
    refine ⟨hup, hup_place, ?_⟩
    dsimp only
    by_cases hpm : p = m
    · have hne : childKey name ≠ childKey (s.node n).name := by
        intro heq
        rw [← heq, hpm, hfree] at hkept
        cases hkept
      rw [if_pos hpm, Ledger.get?_put, if_neg hne]
      exact hkept
    · rw [if_neg hpm]
      exact hkept
  · refine ⟨m, (mem_madeSince_withPackage hm).2 (Or.inl hm), ?_⟩
    rw [placeOf_withPackage_self hm, placeOf_withPackage_of_made hm, node_withPackage_self hm,
      node_withPackage_of_made hm]
    refine ⟨rfl, hplace, ?_⟩
    dsimp only
    rw [if_pos rfl]
    exact Ledger.get?_put_self _ _ _

/-- A new package under a key that was free keeps the tree. -/
theorem create (h : PackageForest d index base s) (hm : m ∈ s.madeSince base)
    {names : List String} (hnames : Path.Names names) (hlast : names.getLast? = some name)
    (hkeys : names.map childKey = s.placeOf m ++ [childKey name])
    (hfree : (s.node m).children.get? (childKey name) = none) :
    PackageForest d index base (s.withPackage d index m name (Path.ofParts names)) := by
  have hplace : Path.place (Path.ofParts names) = s.placeOf m ++ [childKey name] := by
    rw [Path.place, Path.parts_ofParts hnames, hkeys]
  have hnew := h.path_not_mem_keys hm hplace hfree
  refine ⟨h.registry_withPackage hm hnew, (mem_madeSince_withPackage hm).2 (Or.inl h.root_made), ?_, ?_,
    ?_, ?_, ?_, ?_⟩
  · rw [node_withPackage_of_made h.root_made]
    exact h.root_path
  · rw [node_withPackage_of_made h.root_made]
    exact h.root_free
  · intro n hn
    rcases (mem_madeSince_withPackage hm).1 hn with hn | rfl
    · rw [node_withPackage_of_made hn]
      exact h.names n hn
    · rw [node_withPackage_self hm]
      exact ⟨names, hnames, rfl⟩
  · intro n hn hroot
    rcases (mem_madeSince_withPackage hm).1 hn with hn | rfl
    · rw [node_withPackage_of_made hn]
      exact h.called n hn hroot
    · rw [node_withPackage_self hm]
      show (Path.parts (Path.ofParts names)).getLast? = some name
      rw [Path.parts_ofParts hnames, hlast]
  · intro p hp key c hc
    exact h.below_withPackage hm hplace hp hc
  · intro n hn hroot
    exact h.kept_withPackage hm hplace hfree hn hroot

end Create

end PackageForest

end Docset
