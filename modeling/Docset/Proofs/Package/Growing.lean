/-
  Growing the tree of packages along a path.

  Going down along names either finds a child under the key of the name or makes one, so in the end there
  is a package at the place of the path (`growPackage_ensures`).  What it is CALLED is another matter.  A
  package that is made on the way gets its path from the names gone along; one that is found keeps the
  path it was made with.  Since places are never given up, the path of a package is that of the first who
  came by: `Store.Spelled` says so for all packages at once.
-/
import Docset.Proofs.Package.Forest

namespace Docset

open Build

/-! ## Growth -/

/-- The tree of `t` has all packages of the tree of `s`, with the paths they have there. -/
structure PackagesGrow (d : SetId) (index : String) (base : Nat) (s t : Store) : Prop
    extends Store.Extends d base s t where
  forest : PackageForest d index base t

/-- Every package but the root has the path that the first path through its place gives it. -/
def Store.Spelled (s : Store) (base : Nat) (paths : List String) : Prop :=
  ∀ n ∈ s.madeSince base, n ≠ ⟨base⟩ →
    Path.firstSpelling paths (s.placeOf n) = some (Path.parts (s.node n).path)

namespace Store.Spelled

variable {s t : Store} {base : Nat} {paths : List String}

/-- Filing elements changes no spelling. -/
theorem congr (h : s.Spelled base paths) (hsize : t.nodes.size = s.nodes.size)
    (hnodes : s.SameNodes t) : t.Spelled base paths := by
  intro n hn hroot
  rw [Store.madeSince_eq_of_size hsize] at hn
  have hplace : t.placeOf n = s.placeOf n := congrArg Path.place (hnodes.path n)
  rw [hplace, hnodes.path]
  exact h n hn hroot

/-- Paths that come later do not change how a place is spelled. -/
theorem append (h : s.Spelled base paths) (more : List String) : s.Spelled base (paths ++ more) := by
  intro n hn hroot
  have hspelled := h n hn hroot
  rw [Path.firstSpelling, Option.map_eq_some_iff] at hspelled
  obtain ⟨path, hfind, hparts⟩ := hspelled
  rw [Path.firstSpelling, List.find?_append, hfind, Option.some_or, Option.map_some, hparts]

end Store.Spelled

namespace PackagesGrow

variable {d : SetId} {index : String} {base : Nat} {s t u : Store}

theorem refl (h : PackageForest d index base s) : PackagesGrow d index base s s :=
  ⟨.refl d base s, h⟩

theorem trans (hst : PackagesGrow d index base s t) (htu : PackagesGrow d index base t u) :
    PackagesGrow d index base s u :=
  ⟨hst.toExtends.trans htu.toExtends, htu.forest⟩

theorem placeOf (h : PackagesGrow d index base s t) {n : NodeId} (hn : n ∈ s.madeSince base) :
    t.placeOf n = s.placeOf n :=
  congrArg Path.place (h.path n hn)

theorem record (h : PackageForest d index base s) (logger : String) (level : Level) (text : String) :
    PackagesGrow d index base s (s.record logger level text) :=
  ⟨.of_nodes rfl rfl rfl, h.congr rfl rfl fun _ => rfl⟩

/-- Making a package under a free key is growth. -/
theorem create (h : PackageForest d index base s) {m : NodeId} (hm : m ∈ s.madeSince base)
    {name : String} {names : List String} (hnames : Path.Names names)
    (hlast : names.getLast? = some name)
    (hplace : names.map childKey = s.placeOf m ++ [childKey name])
    (hfree : (s.node m).children.get? (childKey name) = none) :
    PackagesGrow d index base s (s.withPackage d index m name (Path.ofParts names)) := by
  have hbase := h.registry.base_le
  have hmade : Store.Extends d base s (s.addNode (.single .package name (Path.ofParts names))).1 :=
    .create rfl hbase rfl rfl rfl
  have hnew : (⟨s.nodes.size⟩ : NodeId) ∈
      (s.addNode (.single .package name (Path.ofParts names))).1.madeSince base := by
    rw [Store.madeSince_addNode hbase]
    exact List.mem_append_right _ List.mem_cons_self
  have hlinked := hmade.trans (.addChild hnew (hmade.made m hm) (childKey name))
  exact ⟨hlinked.trans (.of_nodes rfl rfl (Store.code_putEntry _ d index _ _)),
    h.create hm hnames hlast hplace hfree⟩

/-- A place that belongs to a package goes on to belong to one. -/
theorem exists_place (h : PackagesGrow d index base s t) {keys : List String}
    (hkeys : ∃ n ∈ s.madeSince base, s.placeOf n = keys) :
    ∃ n ∈ t.madeSince base, t.placeOf n = keys := by
  obtain ⟨n, hn, hplace⟩ := hkeys
  exact ⟨n, h.made n hn, (h.placeOf hn).trans hplace⟩

end PackagesGrow

/-! ## Going down -/

section Steps

variable {ε : Type} {d : SetId} {index : String} {base : Nat}

/-- The step down: the child under the key is there, or it is made with the path gone along, and then no
    package was at its place before. -/
theorem openChild_ensures {s : Store} (h : PackageForest d index base s) {here : NodeId}
    (hhere : here ∈ s.madeSince base) {names : List String} {name : String}
    (hplace : s.placeOf here = names.map childKey) (hnames : Path.Names (names ++ [name])) :
    Ensures (openChild d index here (Path.ofParts (names ++ [name])) name : Build ε NodeId) s
      fun c t => PackagesGrow d index base s t ∧ c ∈ t.madeSince base ∧
        t.placeOf c = (names ++ [name]).map childKey ∧
        ∀ x ∈ t.madeSince base, x ∉ s.madeSince base → x = c ∧
          (t.node c).path = Path.ofParts (names ++ [name]) ∧
          ∀ n ∈ s.madeSince base, s.placeOf n ≠ (names ++ [name]).map childKey := by
  have hkeys : (names ++ [name]).map childKey = s.placeOf here ++ [childKey name] := by
    rw [hplace, List.map_append, List.map_singleton]
  rw [openChild, ensures_bind, ensures_get]
  cases hchild : (s.node here).children.get? (childKey name) with
  | some c =>
    obtain ⟨hc, hplace_c⟩ := h.below here hhere _ c hchild
    rw [ensures_pure, hkeys]
    exact ⟨.refl h, hc, hplace_c, fun x hx hx' => absurd hx hx'⟩
  | none =>
    rw [ensures_bind, ensures_addNode, ensures_bind, ensures_change, ensures_bind, ensures_change]
    show Ensures _ (s.withPackage d index here name (Path.ofParts (names ++ [name]))) _
    have hcreate := PackagesGrow.create h hhere hnames List.getLast?_concat hkeys hchild
    generalize ht : s.withPackage d index here name (Path.ofParts (names ++ [name])) = t
      at hcreate ⊢
    rw [ensures_bind, ensures_debug, ensures_pure]
    have hmade : t.madeSince base = s.madeSince base ++ [⟨s.nodes.size⟩] :=
      ht ▸ PackageForest.madeSince_withPackage hhere
    have hpath : (t.node ⟨s.nodes.size⟩).path = Path.ofParts (names ++ [name]) := by
      rw [← ht, PackageForest.node_withPackage_self hhere]
      rfl
    refine ⟨hcreate.trans (.record hcreate.forest _ _ _), ?_, ?_, ?_⟩
    · show _ ∈ t.madeSince base
      rw [hmade]
      exact List.mem_append_right _ List.mem_cons_self
    · show Path.place (t.node ⟨s.nodes.size⟩).path = _
      rw [hpath, Path.place, Path.parts_ofParts hnames]
    · intro x hx hx'
      have hx : x ∈ t.madeSince base := hx
      rw [hmade, List.mem_append, List.mem_singleton] at hx
      refine ⟨hx.resolve_left hx', hpath, ?_⟩
      -- Whoever stood at the place would be the child that was not found.
      intro n hn hplace_n
      rw [hkeys] at hplace_n
      rw [h.child_of_place hhere hn hplace_n] at hchild
      cases hchild

/-- **Going down** ends at the place of the path, and spells new places as the path does: the paths done
    before lead through none of them. -/
theorem descend_ensures {path : String} {done rest : List String}
    (hpath : Path.Names (Path.parts path)) (names : List String) :
    ∀ (s : Store) (here : NodeId) (front : List String), PackageForest d index base s →
      s.Spelled base (done ++ path :: rest) →
      (∀ p ∈ done, ∃ n ∈ s.madeSince base, s.placeOf n = Path.place p) →
      here ∈ s.madeSince base → s.placeOf here = front.map childKey →
      Path.parts path = front ++ names →
      Ensures (descend d index here (front.foldl Path.child "") names : Build ε NodeId) s
        fun n t => PackagesGrow d index base s t ∧ t.Spelled base (done ++ path :: rest) ∧
          n ∈ t.madeSince base ∧ t.placeOf n = Path.place path := by
  induction names with
  | nil =>
    intro s here front h hspelled _ hhere hplace hparts
    rw [descend, ensures_pure]
    refine ⟨.refl h, hspelled, hhere, ?_⟩
    rw [hplace, Path.place, hparts, List.append_nil]
  | cons name names ih =>
    intro s here front h hspelled hdone hhere hplace hparts
    have hparts' : Path.parts path = (front ++ [name]) ++ names := by
      rw [hparts, List.append_assoc]
      rfl
    have hnames : Path.Names (front ++ [name]) := Path.Names.of_append (hparts' ▸ hpath)
    have htext : Path.child (front.foldl Path.child "") name = (front ++ [name]).foldl Path.child "" := by
      rw [List.foldl_append]
      rfl
    have hbelow : (front ++ [name]).foldl Path.child "" = Path.ofParts (front ++ [name]) := by
      rw [Path.ofParts, if_neg (List.append_ne_nil_of_right_ne_nil _ (List.cons_ne_nil _ _))]
    rw [descend, htext, hbelow, ensures_bind]
    refine (openChild_ensures h hhere hplace hnames).mono fun c t ht => ?_
    obtain ⟨hgrow, hc, hplace_c, hnew⟩ := ht
    rw [← hbelow]
    refine (ih t c (front ++ [name]) hgrow.forest ?_ ?_ hc hplace_c hparts').mono fun n u hu => ?_
    · intro x hx hroot
      by_cases hx' : x ∈ s.madeSince base
      · rw [hgrow.placeOf hx', hgrow.path x hx']
        exact hspelled x hx' hroot
      · obtain ⟨rfl, hpath_x, hfresh⟩ := hnew x hx hx'
        rw [hplace_c, hpath_x, Path.parts_ofParts hnames]
        refine Path.firstSpelling_of_first (fun p hp hway => ?_) hparts'
        obtain ⟨m, hm, hplace_m⟩ := hdone p hp
        obtain ⟨m', hm', hplace_m'⟩ := h.made_on_way hm (hplace_m ▸ hway)
        exact hfresh m' hm' hplace_m'
    · intro p hp
      exact hgrow.exists_place (hdone p hp)
    · exact ⟨hgrow.trans hu.1, hu.2⟩

/-- The package of a path that is not registered is found or made, at the place of the path. -/
theorem growPackage_ensures {name : String} {done rest : List String} {s : Store}
    (hpath : Path.Names (Path.parts (Path.root ++ name))) (h : PackageForest d index base s)
    (hspelled : s.Spelled base (done ++ (Path.root ++ name) :: rest))
    (hdone : ∀ p ∈ done, ∃ n ∈ s.madeSince base, s.placeOf n = Path.place p)
    (hnew : Path.root ++ name ∉ (s.index d index).keys) :
    Ensures (growPackage d index name) s fun n t => PackagesGrow d index base s t ∧
      t.Spelled base (done ++ (Path.root ++ name) :: rest) ∧ n ∈ t.madeSince base ∧
        t.placeOf n = Path.place (Path.root ++ name) := by
  have hlook : s.lookUp .packages d index Path.root = .ok (some ⟨base⟩) := by
    rw [← h.root_path]
    exact h.registry.lookUp_path h.root_made
  -- The root is registered, so the path has names along it.
  have hroot : Path.root ++ name ≠ Path.root := by
    intro heq
    refine hnew (h.registry.mem_keys.2 ⟨_, h.root_made, ?_⟩)
    rw [heq]
    exact h.root_path
  have hparts : Path.parts (Path.root ++ name) = [] ++ packageParts name := by
    have htext : (Path.root ++ name).toList.drop 1 = name.toList := by
      rw [String.toList_append]
      rfl
    rw [Path.parts, if_neg hroot, htext, String.ofList_toList]
    rfl
  rw [growPackage, ensures_bind, openPackageRoot, ensures_bind, ensures_lookUp]
  refine ⟨some ⟨base⟩, hlook, ?_⟩
  rw [ensures_pure]
  exact descend_ensures hpath _ s ⟨base⟩ [] h hspelled hdone h.root_made h.root_place hparts

end Steps

end Docset
