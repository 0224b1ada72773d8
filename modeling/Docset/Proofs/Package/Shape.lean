/-
  The shape of the tree of packages.

  Where no tags name a package called by the word for no name, a finished tree of packages follows a plan
  that speaks of paths alone: the paths needed are those on the way to the paths that tags name
  (`Path.OnWay`), and a path is below another if its place is one key further down.

  In general a place may be spelled in several ways, and which of them becomes the path of the package
  hangs on who comes first.  Without that word places and paths are one (`PackagesBuilt.mem_keys`), and the
  order in which elements come is gone.
-/
import Docset.Proofs.Package.Members
import Docset.Proofs.Plan

namespace Docset

/-- The root, and what stands on the way from it to one of the paths, the paths included. -/
def Path.OnWay (paths : List String) (p : String) : Prop :=
  p = Path.root ∨ ∃ path ∈ paths, ∃ names, names <+: Path.parts path ∧ p = Path.ofParts names

/-- A package says nothing of the path that it hangs off. -/
theorem Node.parentPath_of_packages {n : Node} (h : n.tree = .packages) : n.parentPath = "" := by
  rw [tree] at h
  rw [parentPath]
  cases hrole : n.role with
  | package => rfl
  | space path =>
    rw [hrole] at h
    cases h

/-- What the tree of packages of a set is to look like. -/
def Store.packagePlan (s : Store) (d : SetId) : Plan where
  needed := Path.OnWay (s.packagePaths d)
  below p key q := Path.place q = Path.place p ++ [key]
  hangsOff _ := ""
  held p kind := ((s.packaged d).filter fun e => (s.element e).kind = kind).filter
    fun e => s.namedPlace e = Path.place p

namespace PackagesBuilt

variable {s t : Store} {d : SetId} {n : NodeId}

/-- The names along a package's path are those along the front of a path that tags name. -/
theorem parts_prefix (h : PackagesBuilt d s t) (hn : n ∈ t.madeSince s.nodes.size)
    (hroot : n ≠ ⟨s.nodes.size⟩) :
    ∃ path ∈ s.packagePaths d, Path.parts (t.node n).path <+: Path.parts path := by
  have hspelled := h.spelled n hn hroot
  rw [Path.firstSpelling, Option.map_eq_some_iff] at hspelled
  obtain ⟨path, hfound, hparts⟩ := hspelled
  refine ⟨path, List.mem_of_find?_eq_some hfound, ?_⟩
  rw [← hparts]
  exact List.take_prefix _ _

/-- A package's path is made of the names along it. -/
theorem ofParts_path (h : PackagesBuilt d s t) (hn : n ∈ t.madeSince s.nodes.size) :
    Path.ofParts (Path.parts (t.node n).path) = (t.node n).path := by
  obtain ⟨names, hnames, hpath⟩ := h.forest.names n hn
  rw [hpath, Path.parts_ofParts hnames]

/-- No name along a package's path is the word for no name, if no path that tags name has it. -/
theorem nameless_not_mem (h : PackagesBuilt d s t)
    (hnames : ∀ p ∈ s.packagePaths d, namelessKey ∉ Path.parts p)
    (hn : n ∈ t.madeSince s.nodes.size) : namelessKey ∉ Path.parts (t.node n).path := by
  by_cases hroot : n = ⟨s.nodes.size⟩
  · rw [hroot, h.forest.root_path]
    exact List.not_mem_nil
  · obtain ⟨path, hpath, hbegins⟩ := h.parts_prefix hn hroot
    intro hmem
    exact hnames path hpath (hbegins.subset hmem)

/-- **The keys**: what is registered is on the way to a path that tags name, and all of that is. -/
theorem mem_keys (h : PackagesBuilt d s t)
    (hnames : ∀ p ∈ s.packagePaths d, namelessKey ∉ Path.parts p) {p : String} :
    p ∈ (t.index d Tree.packages.indexName).keys ↔ Path.OnWay (s.packagePaths d) p := by
  rw [h.forest.registry.mem_keys]
  constructor
  · rintro ⟨n, hn, rfl⟩
    by_cases hroot : n = ⟨s.nodes.size⟩
    · rw [hroot]
      exact Or.inl h.forest.root_path
    · obtain ⟨path, hpath, hbegins⟩ := h.parts_prefix hn hroot
      exact Or.inr ⟨path, hpath, _, hbegins, (h.ofParts_path hn).symm⟩
  · rintro (rfl | ⟨path, hpath, names, hbegins, rfl⟩)
    · exact ⟨_, h.forest.root_made, h.forest.root_path⟩
    · obtain ⟨e, he, rfl⟩ := List.mem_map.1 hpath
      obtain ⟨n, hn, -, hplace⟩ := h.bound e he
      have hway : names.map childKey <+: t.placeOf n := by
        rw [hplace]
        exact hbegins.map childKey
      obtain ⟨m, hm, hplace_m⟩ := h.forest.made_on_way hn hway
      -- The place is that of the names, and neither side has the word that makes places ambiguous.
      have hparts : Path.parts (t.node m).path = names := by
        refine Path.map_childKey_inj (h.nameless_not_mem hnames hm) (fun hmem => ?_) hplace_m
        exact hnames _ hpath (hbegins.subset hmem)
      refine ⟨m, hm, ?_⟩
      rw [← hparts]
      exact (h.ofParts_path hm).symm

/-- The parent of a package is registered, one key further up. -/
theorem parentAt_iff (h : PackagesBuilt d s t) (hn : n ∈ t.madeSince s.nodes.size) {q : String} :
    t.parentAt n = some q ↔ q ∈ (t.index d Tree.packages.indexName).keys ∧
      ∃ key, Path.place (t.node n).path = Path.place q ++ [key] := by
  rw [Store.parentAt_eq_some, h.forest.registry.mem_keys]
  constructor
  · rintro ⟨m, hm, rfl⟩
    obtain ⟨hmade, hplace⟩ := h.forest.above hn hm
    exact ⟨⟨m, hmade, rfl⟩, _, hplace⟩
  · rintro ⟨⟨c, hc, rfl⟩, key, hplace⟩
    have hroot : n ≠ ⟨s.nodes.size⟩ := by
      rintro rfl
      have hnil := h.forest.root_place
      rw [Store.placeOf, hplace] at hnil
      exact List.append_ne_nil_of_right_ne_nil _ (List.cons_ne_nil _ _) hnil
    obtain ⟨m, hmade, hm, hplace_m, -⟩ := h.forest.kept n hn hroot
    have hends : t.placeOf c ++ [key] = t.placeOf m ++ [childKey (t.node n).name] :=
      hplace.symm.trans hplace_m
    obtain ⟨hcm, -⟩ := List.append_inj' hends rfl
    refine ⟨m, hm, ?_⟩
    rw [h.forest.eq_of_place hc hmade hcm]

/-- The children of a package are registered, one key further down. -/
theorem childAt_iff (h : PackagesBuilt d s t) (hn : n ∈ t.madeSince s.nodes.size) {key q : String} :
    t.childAt n key = some q ↔ q ∈ (t.index d Tree.packages.indexName).keys ∧
      Path.place q = Path.place (t.node n).path ++ [key] := by
  rw [Store.childAt_eq_some, h.forest.registry.mem_keys]
  constructor
  · rintro ⟨c, hc, rfl⟩
    obtain ⟨hmade, hplace⟩ := h.forest.below n hn key c hc
    exact ⟨⟨c, hmade, rfl⟩, hplace⟩
  · rintro ⟨⟨c, hc, rfl⟩, hplace⟩
    exact ⟨c, h.forest.child_of_place hn hc hplace, rfl⟩

/-- **A finished tree of packages follows the plan of the input**, also in every later store that has it
    as it was. -/
theorem follows {u : Store} (h : PackagesBuilt d s t)
    (hfiled : Filed .packages s.nodes.size s s.namedPlace Path.place (s.packaged d) t)
    (hnames : ∀ p ∈ s.packagePaths d, namelessKey ∉ Path.parts p)
    (hu : Store.Retains d .packages t u) : u.Follows d .packages (s.packagePlan d) := by
  have hregistry := h.forest.registry
  have hrow : ∀ n ∈ t.madeSince s.nodes.size, n.row < t.nodes.size := fun n hn =>
    (Store.mem_madeSince.1 hn).2
  have hkeys : ∀ p, p ∈ (t.index d Tree.packages.indexName).keys ↔ (s.packagePlan d).needed p :=
    fun p => h.mem_keys hnames
  refine ⟨fun p => ?_, fun p hp => ?_⟩
  · rw [hu.index]
    exact hkeys p
  · obtain ⟨n, hn, rfl⟩ := hregistry.mem_keys.1 ((hkeys p).2 hp)
    have htree := hregistry.tree_eq n hn
    have hnode := hu.node n (hrow n hn)
    have hparent := hu.parentAt (hrow n hn) fun m hm => hrow m (h.forest.above hn hm).1
    have hchild := hu.childAt (hrow n hn) fun key c hc => hrow c (h.forest.below n hn key c hc).1
    refine ⟨n, ?_, congrArg Node.path hnode, ?_⟩
    · rw [hu.index]
      exact hregistry.get?_path hn
    · refine ⟨?_, fun q => ?_, fun key q => ?_, fun kind hkind => ?_⟩
      · rw [hnode]
        exact Node.parentPath_of_packages htree
      · rw [hparent, hnode, h.parentAt_iff hn, hkeys]
        rfl
      · rw [hchild, hnode, h.childAt_iff hn, hkeys]
        rfl
      · rw [hnode]
        exact hfiled.collection hn htree hkind

end PackagesBuilt

end Docset
