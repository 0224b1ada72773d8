/-
  Binding elements to their packages.

  A run of binding puts every element at the PLACE that its tags name (`PackagesBound.bound`).  Whether
  the package there also has the PATH that they name depends on who came first, and this is kept as what
  it is: packages are spelled as the first path through their place spells them (`PackagesBound.spelled`).

  One step (`bindPackage_ensures`) looks the path up, grows the tree where the path is not registered, and
  binds.  In the proof the paths of the whole run are fixed from the start, and split at the element at
  hand: those before it have their places taken, and those after it do not matter yet.
-/
import Docset.Proofs.Package.Growing

namespace Docset

open Build

/-- The store with an element bound to a package and filed there. -/
def Store.bindToPackage (s : Store) (e : ElementId) (n : NodeId) : Store :=
  s.bindAt e n fun element => { element with package := .node n }

theorem package_bindToPackage (s : Store) (e : ElementId) (n : NodeId) (x : ElementId) :
    ((s.bindToPackage e n).element x).package = if x = e then .node n else (s.element x).package := by
  rw [Store.bindToPackage, element_bindAt]
  split
  · rfl
  · rfl

theorem Store.SameInput.packagePath {d : SetId} {s t : Store} (h : Store.SameInput d s t)
    (e : ElementId) : (t.element e).packagePath = (s.element e).packagePath :=
  congrArg (Path.root ++ ·) (h.packageName e)

/-! ## One element -/

/-- **One step of binding**: the element goes to the package at the place that it names, which is found
    in the index, or else by going down the tree and making what is missing. -/
theorem bindPackage_ensures {d : SetId} {index : String} {base : Nat} {s : Store} {e : ElementId}
    {done rest : List String} (h : PackageForest d index base s)
    (hspelled : s.Spelled base (done ++ (s.element e).packagePath :: rest))
    (hdone : ∀ p ∈ done, ∃ n ∈ s.madeSince base, s.placeOf n = Path.place p)
    (hkind : (s.element e).kind ∈ Tree.packages.kinds) :
    Ensures (bindPackage d index e) s fun _ u => ∃ t n, u = t.bindToPackage e n ∧
      PackagesGrow d index base s t ∧ t.Spelled base (done ++ (s.element e).packagePath :: rest) ∧
        n ∈ t.madeSince base ∧ t.placeOf n = Path.place (s.element e).packagePath := by
  -- Wherever the package comes from, the rest of the step is the same.
  have hbind : ∀ t n, PackagesGrow d index base s t → n ∈ t.madeSince base →
      Ensures (do
        change (·.updateElement e fun element => { element with package := .node n })
        fileAt n e) t fun _ u => u = t.bindToPackage e n := by
    intro t n ht hn
    refine ensures_bindAt (fun _ => rfl) ?_ rfl
    rw [ht.sameInput.kind, ht.forest.registry.tree_eq n hn]
    exact hkind
  rw [bindPackage, ensures_bind, ensures_get]
  dsimp only
  rw [ensures_bind, ensures_mapError, ensures_bind, ensures_lookUp]
  show ∃ found, s.lookUp .packages d index (s.element e).packagePath = .ok found ∧ _
  rcases h.registry.lookUp_cases (s.element e).packagePath with
    ⟨n, hn, hpath, hfound⟩ | ⟨hnew, hmissing⟩
  · refine ⟨some n, hfound, ?_⟩
    rw [ensures_pure]
    refine (hbind s n (.refl h) hn).mono fun _ u hu => ?_
    exact ⟨s, n, hu, .refl h, hspelled, hn, congrArg Path.place hpath⟩
  · refine ⟨none, hmissing, ?_⟩
    refine (growPackage_ensures (names_packagePath _) h hspelled hdone hnew).mono fun n t ht => ?_
    obtain ⟨hgrow, hspelled_t, hn, hplace⟩ := ht
    refine (hbind t n hgrow hn).mono fun _ u hu => ?_
    exact ⟨t, n, hu, hgrow, hspelled_t, hn, hplace⟩

/-! ## A run over elements -/

/-- The elements in `done` are bound to packages at the places that they name, and packages are spelled
    as the first of the paths through their places. -/
structure PackagesBound (d : SetId) (index : String) (base : Nat) (s₀ : Store) (paths : List String)
    (done : List ElementId) (t : Store) : Prop where
  input : Store.SameInput d s₀ t
  code : (t.docSet d).code = (s₀.docSet d).code
  forest : PackageForest d index base t
  spelled : t.Spelled base paths
  bound : ∀ e ∈ done, ∃ n ∈ t.madeSince base, (t.element e).package = .node n ∧
    t.placeOf n = Path.place (s₀.element e).packagePath

namespace PackagesBound

variable {d : SetId} {index : String} {base : Nat} {s₀ s t : Store} {paths : List String}
  {done : List ElementId} {e : ElementId}

/-- Growth keeps what is bound. -/
theorem grow (h : PackagesBound d index base s₀ paths done s) (hgrow : PackagesGrow d index base s t)
    (hspelled : t.Spelled base paths) : PackagesBound d index base s₀ paths done t where
  input := h.input.trans hgrow.sameInput
  code := hgrow.code.trans h.code
  forest := hgrow.forest
  spelled := hspelled
  bound := by
    intro x hx
    obtain ⟨n, hn, hpackage, hplace⟩ := h.bound x hx
    refine ⟨n, hgrow.made n hn, ?_, (hgrow.placeOf hn).trans hplace⟩
    rw [Store.element, hgrow.elements]
    exact hpackage

/-- Binding the next element to the package at its place takes the run one element further. -/
theorem bind (h : PackagesBound d index base s₀ paths done s) {n : NodeId}
    (hn : n ∈ s.madeSince base) (hplace : s.placeOf n = Path.place (s₀.element e).packagePath) :
    PackagesBound d index base s₀ paths (done ++ [e]) (s.bindToPackage e n) := by
  have hsize : (s.bindToPackage e n).nodes.size = s.nodes.size :=
    size_bindAt (Store.mem_madeSince.1 hn).2
  have hmade := Store.madeSince_eq_of_size hsize base
  have hnodes : s.SameNodes (s.bindToPackage e n) := sameNodes_bindAt s e n _
  have hplaces : ∀ m, (s.bindToPackage e n).placeOf m = s.placeOf m := fun m =>
    congrArg Path.place (hnodes.path m)
  refine ⟨h.input.trans (sameInput_bindAt d s e n fun _ => rfl), h.code,
    h.forest.congr hsize rfl hnodes, h.spelled.congr hsize hnodes, ?_⟩
  intro x hx
  by_cases hxe : x = e
  · refine ⟨n, hmade ▸ hn, ?_, ?_⟩
    · rw [package_bindToPackage, if_pos hxe]
    · rw [hplaces, hplace, hxe]
  · rcases List.mem_append.1 hx with hx | hx
    · obtain ⟨m, hm, hpackage, hplace_m⟩ := h.bound x hx
      refine ⟨m, hmade ▸ hm, ?_, (hplaces m).trans hplace_m⟩
      rw [package_bindToPackage, if_neg hxe]
      exact hpackage
    · exact absurd (List.mem_singleton.1 hx) hxe

/-- The places that the elements done name belong to packages. -/
theorem places (h : PackagesBound d index base s₀ paths done s) :
    ∀ p ∈ done.map (fun x => (s₀.element x).packagePath),
      ∃ n ∈ s.madeSince base, s.placeOf n = Path.place p := by
  intro p hp
  obtain ⟨x, hx, rfl⟩ := List.mem_map.1 hp
  obtain ⟨n, hn, -, hplace⟩ := h.bound x hx
  exact ⟨n, hn, hplace⟩

/-- One step of binding takes the run one element further, after some growth. -/
theorem step {es rest : List ElementId} (hes : es = done ++ e :: rest)
    (h : PackagesBound d index base s₀ (es.map fun x => (s₀.element x).packagePath) done s)
    (hkind : (s₀.element e).kind ∈ Tree.packages.kinds) :
    Ensures (bindPackage d index e) s fun _ u =>
      PackagesBound d index base s₀ (es.map fun x => (s₀.element x).packagePath) (done ++ [e]) u ∧
      ∃ t n, u = t.bindToPackage e n ∧ PackagesGrow d index base s t ∧ n ∈ t.madeSince base ∧
        t.placeOf n = Path.place (s₀.element e).packagePath := by
  have hpaths : es.map (fun x => (s₀.element x).packagePath) =
      done.map (fun x => (s₀.element x).packagePath) ++
        (s₀.element e).packagePath :: rest.map fun x => (s₀.element x).packagePath := by
    rw [hes, List.map_append, List.map_cons]
  have hpath := h.input.packagePath e
  have hspelled := h.spelled
  rw [hpaths, ← hpath] at hspelled
  rw [← h.input.kind e] at hkind
  refine (bindPackage_ensures h.forest hspelled h.places hkind).mono fun _ u hu => ?_
  obtain ⟨t, n, rfl, hgrow, hspelled_t, hn, hplace⟩ := hu
  rw [hpath] at hspelled_t hplace
  rw [← hpaths] at hspelled_t
  exact ⟨(h.grow hgrow hspelled_t).bind hn hplace, t, n, rfl, hgrow, hn, hplace⟩

end PackagesBound

/-- **A run of binding** puts every element at the place that its tags name. -/
theorem bindPackages_ensures {d : SetId} {index : String} {base : Nat} {s₀ s : Store}
    {es : List ElementId}
    (h : PackagesBound d index base s₀ (es.map fun e => (s₀.element e).packagePath) [] s)
    (hkinds : ∀ e ∈ es, (s₀.element e).kind ∈ Tree.packages.kinds) :
    Ensures (bindPackages d index es) s fun _ t =>
      PackagesBound d index base s₀ (es.map fun e => (s₀.element e).packagePath) es t := by
  refine ensures_forEach (fun done t =>
    PackagesBound d index base s₀ (es.map fun e => (s₀.element e).packagePath) done t) h ?_
  intro done e rest t hes ht
  have he : e ∈ es := by
    rw [hes]
    exact List.mem_append_right _ List.mem_cons_self
  exact (ht.step hes (hkinds e he)).mono fun _ u hu => hu.1

end Docset
