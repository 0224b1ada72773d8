/-
  The index of packages as a picture of the tree.

  Packages are looked up in the index by path, and walked to in the tree by child, or by parent.  The three
  are keyed differently: with the whole path, with one name or the word for no name, and not at all.
  `Store.PicturesPackages` says that they agree all the same.

  **The theorem** (`bindEvents_pictures`): however often elements are bound, with whatever tags, the index
  agrees with the tree, and an entry that is there stays as it is.

  1. A package of a forest is reached from the root by its place, and the way up takes as many steps as the
     place has keys (`PackageForest.pictures`).  Places are read off paths, so the number of keys is that of
     the separators of the path (`Path.count_ofParts`).
  2. The DEPTH of a path counts its names after the separators at its end are gone, so the two numbers
     differ exactly where the last name is empty (`Path.depth_ofParts`).
  3. A step of binding keeps the forest, since places are never given up, and makes entries at the end of
     the index only (`PackagesKept.bindPackage`).  So does every run of steps (`PackagesKept.runs`).
-/
import Docset.Proofs.Name.Depth
import Docset.Proofs.Package.Binding
import Docset.Proofs.Walks

namespace Docset

open Build

/-! ## Names and separators -/

namespace Path

theorem count_foldl_child (text : String) {names : List String}
    (h : ∀ name ∈ names, separator ∉ name.toList) :
    (names.foldl child text).toList.count separator = text.toList.count separator + names.length := by
  induction names generalizing text with
  | nil => rfl
  | cons name names ih =>
    have hname := h name List.mem_cons_self
    rw [List.foldl_cons, ih _ fun x hx => h x (List.mem_cons_of_mem _ hx), toList_child, List.count_append,
      List.count_cons_self, List.count_eq_zero_of_not_mem hname, List.length_cons]
    omega

/-- **A path has as many separators as names**, unless it is the root. -/
theorem count_ofParts {names : List String} (h : Names names) (hne : names ≠ []) :
    (ofParts names).toList.count separator = names.length := by
  rw [ofParts, if_neg hne, count_foldl_child "" h.1]
  simp

theorem foldl_child_root_append (text : String) (names : List String) :
    names.foldl child (root ++ text) = root ++ names.foldl child text := by
  induction names generalizing text with
  | nil => rfl
  | cons name names ih => rw [List.foldl_cons, child_root_append, ih, List.foldl_cons]

/-- A path is a separator and its names, joined by separators. -/
theorem ofParts_cons (name : String) (names : List String) :
    ofParts (name :: names) = root ++ names.foldl child name := by
  rw [ofParts, if_neg (List.cons_ne_nil _ _), List.foldl_cons, child, String.empty_append,
    foldl_child_root_append]

/-- A path ends with a separator if its last name is empty. -/
theorem endsOpen_ofParts_iff {names : List String} {name : String} (h : Names names)
    (hlast : names.getLast? = some name) : EndsOpen (ofParts names) ↔ name = "" := by
  obtain ⟨front, rfl⟩ := List.getLast?_eq_some_iff.1 hlast
  have hname : separator ∉ name.toList := h.1 name (List.mem_append_right _ List.mem_cons_self)
  have hpath : ofParts (front ++ [name]) = child (front.foldl child "") name := by
    rw [ofParts, if_neg (List.append_ne_nil_of_right_ne_nil _ (List.cons_ne_nil _ _)), List.foldl_append]
    rfl
  rw [hpath]
  exact endsOpen_child_iff hname

/-- The names after the first separator, joined, start with a name that is not empty. -/
theorem head?_foldl_child {name : String} {names : List String} (h : Names (name :: names)) :
    names.foldl child name ≠ "" ∧ (names.foldl child name).toList.head? ≠ some separator := by
  cases hlist : name.toList with
  | nil => exact absurd (congrArg some (String.toList_eq_nil_iff.1 hlist)) h.2
  | cons c rest =>
    have htext : (names.foldl child name).toList =
        c :: (rest ++ (names.map String.toList).flatMap (separator :: ·)) := by
      rw [toList_foldl_child, hlist, List.cons_append]
    constructor
    · intro hempty
      rw [hempty] at htext
      cases htext
    · rw [htext]
      intro hhead
      cases hhead
      have hname := h.1 name List.mem_cons_self
      rw [hlist] at hname
      exact hname List.mem_cons_self

/-- The first name has no separator before it. -/
theorem count_foldl_child_name {name : String} {names : List String} (h : Names (name :: names)) :
    (names.foldl child name).toList.count separator = names.length := by
  rw [count_foldl_child name fun x hx => h.1 x (List.mem_cons_of_mem _ hx),
    List.count_eq_zero_of_not_mem (h.1 name List.mem_cons_self), Nat.zero_add]

/-- The depth of a path is never more than the number of its names. -/
theorem depth_ofParts_le {names : List String} (h : Names names) : depth (ofParts names) ≤ names.length := by
  cases names with
  | nil => exact Nat.le_refl 0
  | cons name names =>
    have hle := depth_le_count (names.foldl child name)
    rw [count_foldl_child_name h] at hle
    rw [ofParts_cons, depth_root_append, List.length_cons]
    exact hle

/-- **A path is as deep as it has names**, unless the last of them is empty. -/
theorem depth_ofParts {names : List String} {name : String} (h : Names names)
    (hlast : names.getLast? = some name) : depth (ofParts names) = names.length ↔ name ≠ "" := by
  constructor
  · rintro hdepth rfl
    obtain ⟨front, rfl⟩ := List.getLast?_eq_some_iff.1 hlast
    have hfront := h.of_append
    cases front with
    | nil => exact h.2 rfl
    | cons x front =>
      -- The separator at the end goes, and with it the empty name.
      have hpath : ofParts (x :: front ++ [""]) = ofParts (x :: front) ++ root := by
        rw [List.cons_append, ofParts_cons, ofParts_cons, List.foldl_append, List.foldl_cons,
          List.foldl_nil, child_empty, String.append_assoc]
      have hle := depth_ofParts_le hfront
      rw [hpath, depth_append_root, List.length_append, List.length_singleton] at hdepth
      omega
  · intro hname
    have hclosed := mt (endsOpen_ofParts_iff h hlast).1 hname
    cases names with
    | nil => cases hlast
    | cons x names =>
      obtain ⟨hempty, hhead⟩ := head?_foldl_child h
      have hend : (names.foldl child x).toList.getLast? ≠ some separator := by
        intro hend
        apply hclosed
        cases hlist : (names.foldl child x).toList with
        | nil => exact absurd (String.toList_eq_nil_iff.1 hlist) hempty
        | cons c rest =>
          rw [EndsOpen, ofParts_cons, toList_root_append, hlist, List.getLast?_cons_cons, ← hlist]
          exact hend
      rw [ofParts_cons, depth_root_append, depth_eq_count hempty hhead hend, count_foldl_child_name h,
        List.length_cons]

example : depth (ofParts ["A", ""]) = 1 ∧ depth (ofParts ["A", "", "B"]) = 3 := by decide

end Path

/-! ## Pictures -/

/-- The index agrees with the tree of packages below a root. -/
structure Store.PicturesPackages (s : Store) (d : SetId) (index : String) (top : NodeId) : Prop where
  /-- The root stands under its path. -/
  root : (s.index d index).get? Path.root = some (.node top)
  /-- Every entry is a package, under its path. -/
  entry : ∀ key entry, (key, entry) ∈ (s.index d index).entries →
    ∃ n, entry = .node n ∧ (s.node n).tree = .packages ∧ (s.node n).path = key
  /-- The packages that are reached from the root by children are exactly the entries. -/
  reached : ∀ n, s.Reaches top n ↔ ∃ key, (key, .node n) ∈ (s.index d index).entries
  /-- All but the root are kept by their parent, under their name or the word for none. -/
  kept : ∀ n, s.Reaches top n → n ≠ top → ∃ m, (s.node n).parent = some m ∧
    (s.node m).children.get? (childKey (s.node n).name) = some n
  /-- The way up ends at the root, after as many steps as the path has separators. -/
  ancestors : ∀ n, s.Reaches top n → n ≠ top → s.Ascends top n (s.ancestors n) ∧
    (s.ancestors n).length = (s.node n).path.toList.count Path.separator
  /-- This is the depth exactly if the package has a name. -/
  depth : ∀ n, s.Reaches top n → n ≠ top →
    ((s.ancestors n).length = (s.node n).depth ↔ (s.node n).name ≠ "")

namespace PackageForest

variable {d : SetId} {index : String} {base : Nat} {s : Store}

/-- What is reached from the root are the packages of the forest. -/
theorem reaches_iff (h : PackageForest d index base s) {n : NodeId} :
    s.Reaches ⟨base⟩ n ↔ n ∈ s.madeSince base := by
  constructor
  · intro hn
    induction hn with
    | top => exact h.root_made
    | child _ hc ih => exact (h.below _ ih _ _ hc).1
  · intro hn
    have hdown : ∀ x, x ∈ s.madeSince base → x ≠ ⟨base⟩ → ∃ m key, m ∈ s.madeSince base ∧
        (s.node m).children.get? key = some x ∧ (s.placeOf m).length < (s.placeOf x).length := by
      intro x hx hroot
      obtain ⟨m, hm, -, hplace, hkept⟩ := h.kept x hx hroot
      refine ⟨m, _, hm, hkept, ?_⟩
      rw [hplace, List.length_append, List.length_singleton]
      omega
    exact Store.reaches_of_level hdown hn

/-- The way up from a package has a step for each key of its place. -/
theorem ascends (h : PackageForest d index base s) {n : NodeId} (hn : n ∈ s.madeSince base) :
    s.Ascends ⟨base⟩ n (s.ancestors n) ∧ (s.ancestors n).length = (s.placeOf n).length := by
  have hlevel : (s.placeOf ⟨base⟩).length = 0 := by
    rw [h.root_place]
    rfl
  have hup : ∀ x, x ∈ s.madeSince base → x ≠ ⟨base⟩ → ∃ m, m ∈ s.madeSince base ∧
      (s.node x).parent = some m ∧ (s.placeOf x).length = (s.placeOf m).length + 1 := by
    intro x hx hroot
    obtain ⟨m, hm, hparent, hplace, -⟩ := h.kept x hx hroot
    refine ⟨m, hm, hparent, ?_⟩
    rw [hplace, List.length_append, List.length_singleton]
  exact Store.ancestors_of_level h.root_free hlevel hup hn

/-- The names along the path of a package that is not the root. -/
theorem names_of_ne_root (h : PackageForest d index base s) {n : NodeId} (hn : n ∈ s.madeSince base)
    (hroot : n ≠ ⟨base⟩) : ∃ names, Path.Names names ∧ (s.node n).path = Path.ofParts names ∧
      names.getLast? = some (s.node n).name ∧ (s.placeOf n).length = names.length := by
  obtain ⟨names, hnames, hpath⟩ := h.names n hn
  have hcalled := h.called n hn hroot
  have hparts : Path.parts (s.node n).path = names := by
    rw [hpath, Path.parts_ofParts hnames]
  rw [hparts] at hcalled
  refine ⟨names, hnames, hpath, hcalled, ?_⟩
  rw [Store.placeOf, Path.place, hparts, List.length_map]

/-- **The index of a forest agrees with its tree.** -/
theorem pictures (h : PackageForest d index base s) : s.PicturesPackages d index ⟨base⟩ where
  root := by
    have hget := h.registry.get?_path h.root_made
    rw [h.root_path] at hget
    exact hget
  entry := by
    intro key entry hmem
    obtain ⟨n, hn, hpath, rfl⟩ := h.registry.mem_entries.1 hmem
    exact ⟨n, rfl, h.registry.tree_eq n hn, hpath⟩
  reached := by
    intro n
    rw [h.reaches_iff]
    constructor
    · intro hn
      exact ⟨_, h.registry.mem_entries.2 ⟨n, hn, rfl, rfl⟩⟩
    · rintro ⟨key, hmem⟩
      obtain ⟨m, hm, -, heq⟩ := h.registry.mem_entries.1 hmem
      cases heq
      exact hm
  kept := by
    intro n hn hroot
    obtain ⟨m, -, hparent, -, hkept⟩ := h.kept n (h.reaches_iff.1 hn) hroot
    exact ⟨m, hparent, hkept⟩
  ancestors := by
    intro n hn hroot
    rw [h.reaches_iff] at hn
    obtain ⟨hascends, hlength⟩ := h.ascends hn
    obtain ⟨names, hnames, hpath, hlast, hplace⟩ := h.names_of_ne_root hn hroot
    refine ⟨hascends, ?_⟩
    have hne : names ≠ [] := by
      rintro rfl
      cases hlast
    rw [hlength, hplace, hpath, Path.count_ofParts hnames hne]
  depth := by
    intro n hn hroot
    rw [h.reaches_iff] at hn
    obtain ⟨names, hnames, hpath, hlast, hplace⟩ := h.names_of_ne_root hn hroot
    rw [(h.ascends hn).2, hplace, Node.depth, hpath, ← Path.depth_ofParts hnames hlast]
    exact eq_comm

end PackageForest

/-! ## Binding again and again -/

/-- What happens to elements. -/
inductive PackageEvent
  /-- Elements are bound to their packages. -/
  | bind (es : List ElementId)
  /-- An element gets other tags. -/
  | retag (e : ElementId) (tags : List Tag)

/-- The elements that are bound. -/
def PackageEvent.bound : PackageEvent → List ElementId
  | .bind es => es
  | .retag _ _ => []

/-- What is done. -/
def PackageEvent.run (d : SetId) (index : String) : PackageEvent → Build BindError Unit
  | .bind es => bindPackages d index es
  | .retag e tags => Build.change (·.updateElement e fun element => { element with tags := tags })

/-- The store with a fresh root of packages that is all that an index holds. -/
def Store.freshMapping (s : Store) (d : SetId) (index : String) : Store :=
  (s.addNode .packageRoot).1.setIndex d index (Ledger.empty.put Path.root (.node ⟨s.nodes.size⟩))

/-- Since a store `s`: elements are of the kinds they were of, the packages are a forest that is spelled by
    paths whose places were made, the entries of `s` are there, and the elements in `done` are bound. -/
structure PackagesKept (d : SetId) (index : String) (base : Nat) (s : Store) (done : List ElementId)
    (t : Store) : Prop where
  kind : ∀ e, (t.element e).kind = (s.element e).kind
  forest : PackageForest d index base t
  spelled : ∃ paths, t.Spelled base paths ∧
    ∀ p ∈ paths, ∃ n ∈ t.madeSince base, t.placeOf n = Path.place p
  entries : (s.index d index).entries <+: (t.index d index).entries
  bound : ∀ e ∈ done, ∃ n ∈ t.madeSince base, (t.element e).package = .node n

/-- Growth makes entries at the end of the index. -/
theorem PackagesGrow.entries {d : SetId} {index : String} {base : Nat} {s t : Store}
    (hs : PackageForest d index base s) (h : PackagesGrow d index base s t) :
    (s.index d index).entries <+: (t.index d index).entries := by
  have hmade : s.madeSince base <+: t.madeSince base := by
    rw [Store.madeSince_append hs.registry.base_le h.size_le]
    exact List.prefix_append _ _
  rw [hs.registry.entries, h.forest.registry.entries]
  have hpaths : (s.madeSince base).map (fun n => ((s.node n).path, Entry.node n)) =
      (s.madeSince base).map fun n => ((t.node n).path, Entry.node n) :=
    List.map_congr_left fun n hn => by rw [h.path n hn]
  rw [hpaths]
  exact hmade.map _

namespace PackagesKept

variable {d : SetId} {index : String} {base : Nat} {s t u : Store} {done : List ElementId}

/-- A fresh root is a forest that nobody spelled yet. -/
theorem fresh (s : Store) (d : SetId) (index : String) :
    PackagesKept d index s.nodes.size (s.freshMapping d index) [] (s.freshMapping d index) where
  kind := fun _ => rfl
  forest := by
    refine .start (Store.size_addNode s .packageRoot) (Store.node_addNode_self s .packageRoot) ?_
    rw [Store.freshMapping, Store.index_setIndex, if_pos rfl]
  spelled := by
    refine ⟨[], ?_, by simp⟩
    intro n hn hroot
    have hsize : (s.freshMapping d index).nodes.size = s.nodes.size + 1 :=
      Store.size_addNode s .packageRoot
    rw [Store.madeSince_of_size_succ hsize, List.mem_singleton] at hn
    exact absurd hn hroot
  entries := List.prefix_refl _
  bound := by simp

/-- What was reached may be counted from anew. -/
theorem restart (h : PackagesKept d index base s done t) : PackagesKept d index base t [] t :=
  ⟨fun _ => rfl, h.forest, h.spelled, List.prefix_refl _, by simp⟩

/-- Growth keeps the packages, if their new places are those of paths. -/
theorem grow (h : PackagesKept d index base s done t) (hgrow : PackagesGrow d index base t u)
    (hspelled : ∃ paths, u.Spelled base paths ∧
      ∀ p ∈ paths, ∃ n ∈ u.madeSince base, u.placeOf n = Path.place p) :
    PackagesKept d index base s done u where
  kind := fun e => (hgrow.sameInput.kind e).trans (h.kind e)
  forest := hgrow.forest
  spelled := hspelled
  entries := h.entries.trans (hgrow.entries h.forest)
  bound := by
    intro e he
    obtain ⟨n, hn, hpackage⟩ := h.bound e he
    refine ⟨n, hgrow.made n hn, ?_⟩
    rw [Store.element, hgrow.elements]
    exact hpackage

/-- Changing elements, and what is filed at nodes, keeps the packages. -/
theorem congr {done' : List ElementId} (h : PackagesKept d index base s done t)
    (hkind : ∀ e, (u.element e).kind = (t.element e).kind) (hsize : u.nodes.size = t.nodes.size)
    (hindex : u.index d index = t.index d index) (hnodes : t.SameNodes u)
    (hbound : ∀ e ∈ done', ∃ n ∈ t.madeSince base, (u.element e).package = .node n) :
    PackagesKept d index base s done' u where
  kind := fun e => (hkind e).trans (h.kind e)
  forest := h.forest.congr hsize hindex hnodes
  spelled := by
    obtain ⟨paths, hspelled, hpaths⟩ := h.spelled
    refine ⟨paths, hspelled.congr hsize hnodes, ?_⟩
    intro p hp
    obtain ⟨n, hn, hplace⟩ := hpaths p hp
    have hsame : u.placeOf n = t.placeOf n := congrArg Path.place (hnodes.path n)
    exact ⟨n, Store.madeSince_eq_of_size hsize base ▸ hn, hsame.trans hplace⟩
  entries := by
    rw [hindex]
    exact h.entries
  bound := by
    rw [Store.madeSince_eq_of_size hsize base]
    exact hbound

/-- Other tags keep the packages. -/
theorem retag (h : PackagesKept d index base s done t) (e : ElementId) (tags : List Tag) :
    PackagesKept d index base s done
      (t.updateElement e fun element => { element with tags := tags }) := by
  have hsame : ∀ x, ((t.updateElement e fun element => { element with tags := tags }).element x).kind =
      (t.element x).kind ∧
      ((t.updateElement e fun element => { element with tags := tags }).element x).package =
        (t.element x).package := by
    intro x
    rw [Store.element_updateElement]
    split
    · exact ⟨rfl, rfl⟩
    · exact ⟨rfl, rfl⟩
  refine h.congr (fun x => (hsame x).1) rfl rfl (fun _ => rfl) ?_
  intro x hx
  rw [(hsame x).2]
  exact h.bound x hx

/-- Binding an element to a package keeps the packages, and then it is bound too. -/
theorem bind (h : PackagesKept d index base s done t) {n : NodeId} (hn : n ∈ t.madeSince base)
    (e : ElementId) : PackagesKept d index base s (done ++ [e]) (t.bindToPackage e n) := by
  have hinput : Store.SameInput d t (t.bindToPackage e n) := sameInput_bindAt d t e n fun _ => rfl
  have hsize : (t.bindToPackage e n).nodes.size = t.nodes.size :=
    size_bindAt (Store.mem_madeSince.1 hn).2
  refine h.congr hinput.kind hsize rfl (sameNodes_bindAt t e n _) ?_
  intro x hx
  by_cases hxe : x = e
  · exact ⟨n, hn, by rw [package_bindToPackage, if_pos hxe]⟩
  · rw [List.mem_append, List.mem_singleton] at hx
    rw [package_bindToPackage, if_neg hxe]
    exact h.bound x (hx.resolve_right hxe)

/-- **One step of binding** keeps the packages, and then the element is bound. -/
theorem bindPackage (h : PackagesKept d index base s done t) {e : ElementId}
    (hkind : (s.element e).kind ∈ Tree.packages.kinds) :
    Ensures (bindPackage d index e) t fun _ u => PackagesKept d index base s (done ++ [e]) u := by
  obtain ⟨paths, hspelled, hpaths⟩ := h.spelled
  have hspelled_e : t.Spelled base (paths ++ [(t.element e).packagePath]) := hspelled.append _
  rw [← h.kind e] at hkind
  refine (bindPackage_ensures h.forest hspelled_e hpaths hkind).mono fun _ u hu => ?_
  obtain ⟨v, n, rfl, hgrow, hspelled_v, hn, hplace⟩ := hu
  refine (h.grow hgrow ⟨_, hspelled_v, ?_⟩).bind hn e
  intro p hp
  rcases List.mem_append.1 hp with hp | hp
  · exact hgrow.exists_place (hpaths p hp)
  · rw [List.mem_singleton.1 hp]
    exact ⟨n, hn, hplace⟩

/-- Every event keeps the packages. -/
theorem run (h : PackagesKept d index base s done t) {event : PackageEvent}
    (hkinds : ∀ e ∈ event.bound, (s.element e).kind ∈ Tree.packages.kinds) :
    Ensures (event.run d index) t fun _ u =>
      PackagesKept d index base s (done ++ event.bound) u := by
  cases event with
  | bind es =>
    refine ensures_forEach (fun es u => PackagesKept d index base s (done ++ es) u) ?_ ?_
    · rw [List.append_nil]
      exact h
    · intro front e rest u hes hu
      have he : e ∈ es := by
        rw [hes]
        exact List.mem_append_right _ List.mem_cons_self
      rw [← List.append_assoc]
      exact hu.bindPackage (hkinds e he)
  | retag e tags =>
    rw [PackageEvent.run, ensures_change]
    show PackagesKept d index base s (done ++ []) _
    rw [List.append_nil]
    exact h.retag e tags

/-- **Runs of events** keep the packages. -/
theorem runs (h : PackagesKept d index base s [] t) {events : List PackageEvent}
    (hkinds : ∀ event ∈ events, ∀ e ∈ event.bound, (s.element e).kind ∈ Tree.packages.kinds) :
    Ensures (forEach (PackageEvent.run d index) events) t fun _ u =>
      PackagesKept d index base s (events.flatMap PackageEvent.bound) u := by
  refine ensures_forEach (fun events u =>
    PackagesKept d index base s (events.flatMap PackageEvent.bound) u) h ?_
  intro front event rest u hevents hu
  have hevent : event ∈ events := by
    rw [hevents]
    exact List.mem_append_right _ List.mem_cons_self
  rw [List.flatMap_append, List.flatMap_singleton]
  exact hu.run (hkinds event hevent)

end PackagesKept

/-! ## The theorem -/

/-- **The index stays a picture of the tree**, when elements are bound again and again and their tags
    change in between.  After every run of such events it agrees with the tree, and the elements that were
    bound are bound to entries; and whatever happens afterwards, the entries that are there stay as they
    are. -/
theorem bindEvents_pictures {s : Store} {d : SetId} {index : String} {before after : List PackageEvent}
    (hkinds : ∀ event ∈ before ++ after, ∀ e ∈ event.bound,
      (s.element e).kind ∈ Tree.packages.kinds) :
    Ensures (forEach (PackageEvent.run d index) before) (s.freshMapping d index) fun _ t =>
      t.PicturesPackages d index ⟨s.nodes.size⟩ ∧
      (∀ e ∈ before.flatMap PackageEvent.bound, ∃ key n,
        (t.element e).package = .node n ∧ (key, .node n) ∈ (t.index d index).entries) ∧
      Ensures (forEach (PackageEvent.run d index) after) t fun _ u =>
        u.PicturesPackages d index ⟨s.nodes.size⟩ ∧
          (t.index d index).entries <+: (u.index d index).entries := by
  have hfresh := PackagesKept.fresh s d index
  have hbefore := hfresh.runs fun event hevent => hkinds event (List.mem_append_left _ hevent)
  refine hbefore.mono fun _ t ht => ⟨ht.forest.pictures, ?_, ?_⟩
  · intro e he
    obtain ⟨n, hn, hpackage⟩ := ht.bound e he
    exact ⟨_, n, hpackage, ht.forest.registry.mem_entries.2 ⟨n, hn, rfl, rfl⟩⟩
  · refine (ht.restart.runs ?_).mono fun _ u hu => ⟨hu.forest.pictures, hu.entries⟩
    intro event hevent e he
    rw [ht.kind e]
    exact hkinds event (List.mem_append_right _ hevent) e he

/-- A class in the package `A\\B`, then tagged as in `A\C`, and one in `A\UNKNOWN\B`. -/
theorem bindEvents_pictures_nameless :
    let s := Store.ofDeclared [
      (Element.declare .classType "\\X" "" (.path "") .unset).addTag ⟨"package", "A\\\\B"⟩,
      (Element.declare .classType "\\Y" "" (.path "") .unset).addTag ⟨"package", "A\\UNKNOWN\\B"⟩]
    let before := [PackageEvent.bind [⟨1⟩]]
    let after := [PackageEvent.retag ⟨1⟩ [⟨"package", "A\\C"⟩], .bind [⟨1⟩, ⟨2⟩]]
    (∀ event ∈ before ++ after, ∀ e ∈ event.bound, (s.element e).kind ∈ Tree.packages.kinds) ∧
      Ensures (forEach (PackageEvent.run ⟨0⟩ "packages") before) (s.freshMapping ⟨0⟩ "packages") fun _ t =>
        t.PicturesPackages ⟨0⟩ "packages" ⟨s.nodes.size⟩ ∧
        (∀ e ∈ before.flatMap PackageEvent.bound, ∃ key n,
          (t.element e).package = .node n ∧ (key, .node n) ∈ (t.index ⟨0⟩ "packages").entries) ∧
        Ensures (forEach (PackageEvent.run ⟨0⟩ "packages") after) t fun _ u =>
          u.PicturesPackages ⟨0⟩ "packages" ⟨s.nodes.size⟩ ∧
            (t.index ⟨0⟩ "packages").entries <+: (u.index ⟨0⟩ "packages").entries := by
  intro s before after
  have hkinds : ∀ event ∈ before ++ after, ∀ e ∈ event.bound,
      (s.element e).kind ∈ Tree.packages.kinds := by decide
  exact ⟨hkinds, bindEvents_pictures hkinds⟩

end Docset
