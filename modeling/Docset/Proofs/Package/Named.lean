/-
  Which elements are bound to the package that their tags name.

  **The theorem** (`buildPackages_binds`): an element is bound as its tags say — to a package that is
  registered under the path they give, and has that path — EXACTLY if the first path through its place
  spells the place as its own path does.

  The condition is about texts alone, and it can fail in one way only.  Two spellings of one place differ
  where one has no name and the other has the name `UNKNOWN`, so where no package is called that, all
  elements are bound as named (`firstSpelling_of_no_nameless`).
-/
import Docset.Proofs.Package.Binding

namespace Docset

open Build

/-! ## The start of a build -/

/-- The store with a fresh root of packages, which is all that the index holds. -/
def Store.freshPackages (s : Store) (d : SetId) : Store :=
  ((s.addNode .packageRoot).1.updateCode d fun code =>
    { code with packageRoot := ⟨s.nodes.size⟩ }).setIndex d Tree.packages.indexName
      (Ledger.empty.put Path.root (.node ⟨s.nodes.size⟩))

theorem sameInput_freshPackages (s : Store) (d : SetId) :
    Store.SameInput d s (s.freshPackages d) := by
  have hmade : Store.SameInput d s (s.addNode .packageRoot).1 := .of_eq rfl rfl
  have hrooted := hmade.trans (.updateCode _ d (f := fun code =>
    { code with packageRoot := ⟨s.nodes.size⟩ }) fun _ => rfl)
  exact hrooted.trans (.setIndex _ d Tree.packages.indexName _)

theorem code_freshPackages (s : Store) (d : SetId) :
    ((s.freshPackages d).docSet d).code =
      (s.docSet d).code.map fun code => { code with packageRoot := ⟨s.nodes.size⟩ } := by
  rw [Store.freshPackages, Store.setIndex, Store.docSet_updateSet, Store.updateCode,
    Store.docSet_updateSet]
  rfl

/-- With the root alone registered, binding can begin: there is no package to spell. -/
theorem PackagesBound.fresh (s : Store) (d : SetId) (paths : List String) :
    PackagesBound d Tree.packages.indexName s.nodes.size (s.freshPackages d) paths []
      (s.freshPackages d) := by
  have hsize : (s.freshPackages d).nodes.size = s.nodes.size + 1 :=
    Store.size_addNode s .packageRoot
  have hnode : (s.freshPackages d).node ⟨s.nodes.size⟩ = .packageRoot :=
    Store.node_addNode_self s .packageRoot
  refine ⟨.refl d _, rfl, .start hsize hnode ?_, ?_, ?_⟩
  · rw [Store.freshPackages, Store.index_setIndex, if_pos rfl]
  · intro n hn hroot
    rw [Store.mem_madeSince, hsize] at hn
    have hrow : n.row = s.nodes.size := by omega
    rw [← hrow] at hroot
    exact absurd rfl hroot
  · intro e he
    cases he

/-- **The stages of a build**: elements are bound, and then a message is recorded. -/
theorem ensures_buildPackages {s : Store} {d : SetId} {Q : Unit → Store → Prop}
    (hcode : s.DescribesCode d) :
    Ensures (buildPackages d) s Q ↔
      Ensures (bindPackages d Tree.packages.indexName (s.packaged d)) (s.freshPackages d) fun _ t =>
        Q () (t.record packageLogger Level.debug ("Built package tree with "
          ++ toString (t.index d Tree.packages.indexName).size ++ " packages")) := by
  obtain ⟨code, hcode⟩ := Option.isSome_iff_exists.1 hcode
  rw [buildPackages, ensures_bind, ensures_get, hcode]
  dsimp only
  rw [ensures_bind, ensures_addNode, ensures_bind, ensures_change, ensures_bind, ensures_change,
    ensures_bind, ensures_get]
  show Ensures (bindPackages d Tree.packages.indexName ((s.freshPackages d).packaged d) >>= _)
    (s.freshPackages d) Q ↔ _
  rw [(sameInput_freshPackages s d).packaged, ensures_bind]
  simp only [ensures_bind, ensures_get, ensures_debug]

/-! ## The whole build -/

/-- The paths that the tags of the files and declared elements name, in the order of binding. -/
def Store.packagePaths (s : Store) (d : SetId) : List String :=
  (s.packaged d).map fun e => (s.element e).packagePath

/-- What a build leaves: a tree of its own, with every element at the place that it names. -/
structure PackagesBuilt (d : SetId) (s t : Store) : Prop where
  input : Store.SameInput d s t
  code : (t.docSet d).code =
    (s.docSet d).code.map fun code => { code with packageRoot := ⟨s.nodes.size⟩ }
  forest : PackageForest d Tree.packages.indexName s.nodes.size t
  spelled : t.Spelled s.nodes.size (s.packagePaths d)
  bound : ∀ e ∈ s.packaged d, ∃ n ∈ t.madeSince s.nodes.size, (t.element e).package = .node n ∧
    t.placeOf n = Path.place (s.element e).packagePath

/-- **Every build ends well**, and leaves what it should. -/
theorem buildPackages_ensures {s : Store} {d : SetId} (hcode : s.DescribesCode d)
    (hkinds : s.FiledByKind d) (hfiles : s.FilesAreFiles d) :
    Ensures (buildPackages d) s fun _ t => PackagesBuilt d s t := by
  have hfresh := sameInput_freshPackages s d
  have hpath := hfresh.packagePath
  have hpaths : (s.packaged d).map (fun e => ((s.freshPackages d).element e).packagePath) =
      s.packagePaths d := List.map_congr_left fun e _ => hpath e
  rw [ensures_buildPackages hcode]
  refine (bindPackages_ensures (PackagesBound.fresh s d _) fun e he => ?_).mono fun _ t ht => ?_
  · rw [hfresh.kind]
    exact hkinds.kind_of_mem_packaged hfiles he
  · rw [hpaths] at ht
    refine ⟨hfresh.trans (ht.input.trans (.record t d _ _ _)), ht.code.trans (code_freshPackages s d),
      ht.forest.congr rfl rfl fun _ => rfl, ht.spelled, ?_⟩
    intro e he
    obtain ⟨n, hn, hpackage, hplace⟩ := ht.bound e he
    exact ⟨n, hn, hpackage, hpath e ▸ hplace⟩

/-- Whether an element is bound to the package that its tags named, registered under that path. -/
def Store.BoundAsNamed (s t : Store) (d : SetId) (e : ElementId) : Prop :=
  ∃ n, (t.element e).package = .node n ∧
    (t.index d Tree.packages.indexName).get? (s.element e).packagePath = some (.node n) ∧
      (t.node n).path = (s.element e).packagePath

/-- An element is bound as named exactly if the first path through its place spells the place as its own
    does. -/
theorem PackagesBuilt.boundAsNamed_iff {s t : Store} {d : SetId} (h : PackagesBuilt d s t)
    {e : ElementId} (he : e ∈ s.packaged d) :
    s.BoundAsNamed t d e ↔
      Path.firstSpelling (s.packagePaths d) (Path.place (s.element e).packagePath) =
        some (Path.parts (s.element e).packagePath) := by
  obtain ⟨n, hn, hpackage, hplace⟩ := h.bound e he
  -- The root is spelled with no name, by any path at all.
  have hspelled : Path.firstSpelling (s.packagePaths d) (t.placeOf n) =
      some (Path.parts (t.node n).path) := by
    by_cases hroot : n = ⟨s.nodes.size⟩
    · have hpath : (s.element e).packagePath ∈ s.packagePaths d := List.mem_map.2 ⟨e, he, rfl⟩
      rw [hroot, h.forest.root_place, h.forest.root_path]
      exact Path.firstSpelling_nil (List.ne_nil_of_mem hpath)
    · exact h.spelled n hn hroot
  rw [← hplace, hspelled]
  constructor
  · rintro ⟨m, hm, -, hpath⟩
    rw [hpackage] at hm
    cases hm
    rw [hpath]
  · intro hparts
    obtain ⟨names, hnames, hpath_n⟩ := h.forest.names n hn
    have hpath : (t.node n).path = (s.element e).packagePath := by
      have hback := Path.ofParts_parts (s.element e).packageName
      rw [hpath_n, Path.parts_ofParts hnames] at hparts
      rw [hpath_n, Option.some.inj hparts]
      exact hback
    refine ⟨n, hpackage, ?_, hpath⟩
    rw [← hpath]
    exact h.forest.registry.get?_path hn

/-- Where no tags name a package called by the word for no name, all are bound as named. -/
theorem buildPackages_binds_all {s : Store} {d : SetId} (hcode : s.DescribesCode d)
    (hkinds : s.FiledByKind d) (hfiles : s.FilesAreFiles d)
    (hnames : ∀ p ∈ s.packagePaths d, namelessKey ∉ Path.parts p) :
    Ensures (buildPackages d) s fun _ t => ∀ e ∈ s.packaged d, s.BoundAsNamed t d e := by
  refine (buildPackages_ensures hcode hkinds hfiles).mono fun _ t h e he => ?_
  rw [h.boundAsNamed_iff he]
  exact Path.firstSpelling_of_no_nameless hnames (List.mem_map.2 ⟨e, he, rfl⟩)

/-- **What elements are bound to**: each file and each declared element is bound to the package that its
    tags name, registered under that path, exactly if the first path through its place spells the place
    as its own does. -/
theorem buildPackages_binds {s : Store} {d : SetId} (hcode : s.DescribesCode d)
    (hkinds : s.FiledByKind d) (hfiles : s.FilesAreFiles d) :
    Ensures (buildPackages d) s fun _ t => ∀ e ∈ s.packaged d,
      s.BoundAsNamed t d e ↔
        Path.firstSpelling (s.packagePaths d) (Path.place (s.element e).packagePath) =
          some (Path.parts (s.element e).packagePath) :=
  (buildPackages_ensures hcode hkinds hfiles).mono fun _ _ h _ he => h.boundAsNamed_iff he

/-- A class in the package `A\\B` and then one in `A\UNKNOWN\B`: the first is bound as its tags say, and
    the second is not. -/
theorem buildPackages_binds_first :
    let s := Store.ofDeclared [
      (Element.declare .classType "\\X" "" (.path "") .unset).addTag ⟨"package", "A\\\\B"⟩,
      (Element.declare .classType "\\Y" "" (.path "") .unset).addTag ⟨"package", "A\\UNKNOWN\\B"⟩]
    s.DescribesCode ⟨0⟩ ∧ s.FiledByKind ⟨0⟩ ∧ s.FilesAreFiles ⟨0⟩ ∧
      Ensures (buildPackages ⟨0⟩) s fun _ t =>
        s.BoundAsNamed t ⟨0⟩ ⟨1⟩ ∧ ¬ s.BoundAsNamed t ⟨0⟩ ⟨2⟩ := by
  intro s
  have hcode : s.DescribesCode ⟨0⟩ := by decide
  have hkinds : s.FiledByKind ⟨0⟩ := by decide
  have hfiles : s.FilesAreFiles ⟨0⟩ := by decide
  refine ⟨hcode, hkinds, hfiles, (buildPackages_binds hcode hkinds hfiles).mono fun _ t h => ⟨?_, ?_⟩⟩
  · exact (h ⟨1⟩ (by decide)).2 (by decide +kernel)
  · intro hbound
    exact absurd ((h ⟨2⟩ (by decide)).1 hbound) (by decide +kernel)

end Docset
