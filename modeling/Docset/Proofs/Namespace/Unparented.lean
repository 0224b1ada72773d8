/-
  Namespaces that stay apart.

  Linking leaves some namespaces without a parent, and it says how many.  Which ones they are can be told
  from the paths alone: those that are not the root's and have nothing above them (`Path.StaysApart`), that
  is, whose parent path is there but is no qualified name (`Path.staysApart_iff`).

  Three facts make that so.

  1. What lies above something never stays apart (`Path.not_staysApart_above`), for the walk up is not stuck
     half-way.  So a climb that makes a namespace comes to its end at a registered one (`climb_linked`), and
     the answer of a climb is about the namespace that it starts from.
  2. Hence the run counts the listed namespaces whose path stays apart (`linkSpaces_apart`), and what it
     makes meanwhile adds none.
  3. A namespace that is needed only for those below it lies above something, so one that stays apart was
     declared (`Path.Closure.of_staysApart`), and for the same reason nothing hangs below it.

  **The theorem** is `buildSpaces_unparented`.
-/
import Docset.Proofs.Namespace.Keys

namespace Docset

open Build

/-! ## Paths that stay apart -/

namespace Path

/-- The path is not the root's, and there is none above it. -/
def StaysApart (path : String) : Prop := path ≠ root ∧ lineage path = []

instance (path : String) : Decidable (StaysApart path) := inferInstanceAs (Decidable (_ ∧ _))

variable {path above : String}

theorem lineage_eq_nil_iff : lineage path = [] ↔ ∀ above, parentKey path ≠ .ok above := by
  rw [lineage_eq]
  cases h : parentKey path with
  | error fault => simp
  | ok above => simp

/-- A path with one above it does not stay apart. -/
theorem not_staysApart_of_parentKey (h : parentKey path = .ok above) : ¬ StaysApart path := by
  rintro ⟨-, hnone⟩
  exact lineage_eq_nil_iff.1 hnone above h

/-- What lies above a path does not stay apart either. -/
theorem not_staysApart_above (h : parentKey path = .ok above) : ¬ StaysApart above := by
  rintro ⟨hroot, hnone⟩
  obtain ⟨next, hnext⟩ := exists_parentKey h hroot
  exact lineage_eq_nil_iff.1 hnone next hnext

/-- **What staying apart says about the text**: the path has a parent path, but with a separator in front
    that is no qualified name. -/
theorem staysApart_iff (hempty : path ≠ "") (hroot : path ≠ root) :
    StaysApart path ↔
      (split path).1 ≠ "" ∧ ∃ fault, QualifiedName.parse (rooted (split path).1) = .error fault := by
  have hmain : StaysApart path ↔ ∀ above, parentKey path ≠ .ok above := by
    rw [StaysApart, lineage_eq_nil_iff]
    exact and_iff_right hroot
  rw [hmain, parentKey_eq]
  by_cases hparent : (split path).1 = ""
  · -- A path without a parent path is a name, and a name hangs off the root.
    have hname : (split path).2 ≠ "" := by
      rcases split_cases path with ⟨hnone | hroot', -⟩ | ⟨-, hsplit⟩ | ⟨name, hname, -, hsplit⟩ |
        ⟨parent, name, hne, -, hsplit⟩
      · exact absurd hnone hempty
      · exact absurd hroot' hroot
      · rw [hsplit]
        exact hempty
      · rw [hsplit]
        exact hname
      · rw [hsplit] at hparent
        exact absurd hparent hne
    rw [Docset.parentKey, if_pos hparent, if_neg hname]
    constructor
    · intro h
      exact absurd rfl (h root)
    · rintro ⟨hne, -⟩
      exact absurd hparent hne
  · rw [parentKey_of_ne_empty hparent, QualifiedName.parse]
    by_cases hgood : isQualified (rooted (split path).1) = true
    · simp [hgood]
    · simp [hgood, hparent]

example : StaysApart "\\1nvalid\\Child" ∧ ¬ StaysApart "\\1nvalid" := by decide

/-- Among the paths that are needed, only given ones stay apart. -/
theorem Closure.of_staysApart {given : String → Prop} (h : Closure given path)
    (hapart : StaysApart path) : given path := by
  cases h with
  | root => exact absurd rfl hapart.1
  | given hgiven => exact hgiven
  | above _ hup => exact absurd hapart (not_staysApart_above hup)

/-- The empty path is needed only if it is given. -/
theorem Closure.ne_empty {given : String → Prop} (h : Closure given path)
    (hgiven : ∀ p, given p → p ≠ "") : path ≠ "" := by
  cases h with
  | root => decide
  | given hp => exact hgiven _ hp
  | above _ hup =>
    rcases parentKey_eq_ok hup with rfl | ⟨hne, rfl⟩
    · decide
    · exact hne

end Path

/-! ## The count -/

/-- The number of namespaces in a list whose path stays apart. -/
def Store.apart (s : Store) (ns : List NodeId) : Nat :=
  ns.countP fun n => decide (Path.StaysApart (s.node n).path)

section Steps

variable {d : SetId} {index elements : String} {base : Nat}

/-- The count goes by paths, and those are kept. -/
theorem SpacesGrow.apart_eq {s t : Store} (h : SpacesGrow d index base s t) {ns : List NodeId}
    (hns : ∀ n ∈ ns, n ∈ s.madeSince base) : t.apart ns = s.apart ns := by
  refine List.countP_congr fun n hn => ?_
  rw [h.path n (hns n hn)]

/-- **The answer of a climb**: it meets a registered namespace exactly if there is any path above. -/
theorem climb_linked (helements : elements ≠ index) (paths : List String) :
    ∀ (s : Store) (n : NodeId), SpaceForest d index base s → n ∈ s.madeSince base →
      (s.node n).parent = none → Path.lineage (s.node n).path = paths →
      Ensures (climb d index elements n paths) s fun linked _ => linked = !paths.isEmpty := by
  induction paths with
  | nil =>
    intro s n _ _ _ _
    rw [climb, ensures_bind, ensures_get, ensures_bind, ensures_debug, ensures_pure]
    rfl
  | cons above rest ih =>
    intro s n h hn hfree hpaths
    obtain ⟨hup, hrest⟩ := Path.lineage_eq_cons hpaths
    rw [climb, ensures_bind, ensures_lookUp]
    rcases h.registry.lookUp_cases above with ⟨m, -, -, hfound⟩ | ⟨hnew, hmissing⟩
    · refine ⟨some m, hfound, ?_⟩
      rw [ensures_bind, ensures_change, ensures_pure]
      rfl
    · refine ⟨none, hmissing, ?_⟩
      rw [ensures_bind, ensures_createSpace, ensures_bind, ensures_enterSpace, ensures_bind,
        ensures_change]
      show Ensures _ (s.withAbove d index elements above n) _
      obtain ⟨hgrow, hmade, hpath, halone, -⟩ :=
        SpacesGrow.withAbove helements h hn hfree hup hnew rfl
      have hm : (⟨s.nodes.size⟩ : NodeId) ∈
          (s.withAbove d index elements above n).madeSince base := by
        rw [hmade]
        exact List.mem_append_right _ List.mem_cons_self
      -- The root is registered, so what was missing is another path and has one above it.
      have hmore : rest ≠ [] := by
        intro hnone
        refine Path.not_staysApart_above hup ⟨?_, hrest.trans hnone⟩
        rintro rfl
        exact hnew h.root_mem
      rw [← hpath] at hrest
      refine (ih _ ⟨s.nodes.size⟩ hgrow.forest hm halone hrest).mono fun linked _ hlinked => ?_
      rw [hlinked, List.isEmpty_eq_false_iff.2 hmore]
      rfl

/-- Linking one namespace fails exactly if its path stays apart. -/
theorem linkSpace_linked (helements : elements ≠ index) {s : Store} {n : NodeId}
    (h : SpaceForest d index base s) (hn : n ∈ s.madeSince base) (hfree : (s.node n).parent = none)
    (hroot : (s.node n).path ≠ Path.root) :
    Ensures (linkSpace d index elements n) s fun linked _ =>
      linked = !decide (Path.StaysApart (s.node n).path) := by
  rw [linkSpace, ensures_bind, ensures_enterSpace, ensures_bind, ensures_get]
  have henter := SpacesGrow.enter h helements n
  have hlineage : Path.lineage (s.node n).path = (s.node n).lineage := (h.formed n hn).lineage_eq.symm
  refine (climb_linked helements _ _ n henter.forest (henter.made n hn) hfree hlineage).mono ?_
  rintro linked _ rfl
  show (!(s.node n).lineage.isEmpty) = _
  rw [← hlineage]
  cases hpaths : Path.lineage (s.node n).path with
  | nil => simp [Path.StaysApart, hroot, hpaths]
  | cons above rest => simp [Path.StaysApart, hpaths]

/-- **A run of linking** answers how many of the namespaces given have a path that stays apart. -/
theorem linkSpaces_apart (helements : elements ≠ index) (ns : List NodeId) :
    ∀ s : Store, SpaceForest d index base s → (∀ n ∈ ns, n ∈ s.madeSince base) →
      Ensures (linkSpaces d index elements ns) s fun apart _ => apart = s.apart ns := by
  induction ns with
  | nil =>
    intro s _ _
    rw [linkSpaces, ensures_pure]
    rfl
  | cons n rest ih =>
    intro s h hns
    have hn : n ∈ s.madeSince base := hns n List.mem_cons_self
    have hrest : ∀ x ∈ rest, x ∈ s.madeSince base := fun x hx => hns x (List.mem_cons_of_mem _ hx)
    have hcons : s.apart (n :: rest) =
        s.apart rest + if Path.StaysApart (s.node n).path then 1 else 0 := by
      rw [Store.apart, List.countP_cons]
      simp only [decide_eq_true_eq]
      rfl
    rw [linkSpaces, ensures_bind, ensures_get]
    dsimp only
    split
    · rename_i hskip
      -- Neither the root nor what has a parent stays apart.
      have hjoined : ¬ Path.StaysApart (s.node n).path := by
        rcases Bool.or_eq_true_iff.1 hskip with hroot | hsome
        · rintro ⟨hne, -⟩
          exact hne (eq_of_beq hroot)
        · obtain ⟨m, hm⟩ := Option.isSome_iff_exists.1 hsome
          exact Path.not_staysApart_of_parentKey (h.above n hn m hm).2
      rw [hcons, if_neg hjoined]
      exact ih s h hrest
    · rename_i hgo
      rw [Bool.or_eq_true_iff, not_or] at hgo
      have hfree : (s.node n).parent = none := Option.not_isSome_iff_eq_none.1 hgo.2
      have hroot : (s.node n).path ≠ Path.root := fun hpath => hgo.1 (beq_iff_eq.2 hpath)
      rw [ensures_bind]
      refine ((linkSpace_ensures helements h hn hfree).and
        (linkSpace_linked helements h hn hfree hroot)).mono ?_
      rintro linked t ⟨ht, rfl⟩
      rw [ensures_bind]
      refine (ih t ht.grow.forest fun x hx => ht.grow.made x (hrest x hx)).mono ?_
      rintro apart u rfl
      rw [ensures_pure, hcons, ht.grow.apart_eq hrest]
      by_cases hapart : Path.StaysApart (s.node n).path
      · simp [hapart]
      · simp [hapart]

end Steps

/-! ## The namespaces without a parent -/

/-- The namespaces of the index that have no parent, but for the root. -/
def Store.unparented (s : Store) (d : SetId) : List NodeId :=
  (Index.nodes (s.index d Tree.spaces.indexName)).filter fun n =>
    !(s.node n).isRoot && (s.node n).parent.isNone

theorem Store.mem_unparented {s : Store} {d : SetId} {n : NodeId} :
    n ∈ s.unparented d ↔ n ∈ Index.nodes (s.index d Tree.spaces.indexName) ∧
      (s.node n).path ≠ Path.root ∧ (s.node n).parent = none := by
  rw [Store.unparented, List.mem_filter, Bool.and_eq_true, Bool.not_eq_true', Node.isRoot,
    beq_eq_false_iff_ne, Option.isNone_iff_eq_none]

/-- Whatever linking makes lies above something that was registered, so it does not stay apart. -/
theorem SpacesGrow.not_staysApart_of_new {d : SetId} {index : String} {base : Nat} {s t : Store}
    (h : SpacesGrow d index base s t) (hs : SpaceForest d index base s) {n : NodeId}
    (hn : n ∈ t.madeSince s.nodes.size) : ¬ Path.StaysApart (t.node n).path := by
  have hrow := Store.mem_madeSince.1 hn
  have hbase := hs.registry.base_le
  have hmade : n ∈ t.madeSince base := Store.mem_madeSince.2 (by omega)
  intro hapart
  have hkey : (t.node n).path ∈ (t.index d index).keys := h.forest.registry.mem_keys.2 ⟨n, hmade, rfl⟩
  -- It would be registered already, and there is one namespace for a path.
  obtain ⟨m, hm, hpath⟩ := hs.registry.mem_keys.1 ((h.key _ hkey).of_staysApart hapart)
  rw [← h.path m hm] at hpath
  have hmn : m = n := h.forest.registry.eq_of_path (h.made m hm) hmade hpath
  have hold := (Store.mem_madeSince.1 hm).2
  rw [hmn] at hold
  omega

/-- So linking leaves the count of all namespaces as it was. -/
theorem SpacesGrow.apart_made {d : SetId} {index : String} {base : Nat} {s t : Store}
    (h : SpacesGrow d index base s t) (hs : SpaceForest d index base s) :
    t.apart (t.madeSince base) = s.apart (s.madeSince base) := by
  have hnew : t.apart (t.madeSince s.nodes.size) = 0 :=
    List.countP_eq_zero.2 fun n hn => by
      rw [decide_eq_true_eq]
      exact h.not_staysApart_of_new hs hn
  calc t.apart (t.madeSince base)
      = t.apart (s.madeSince base) + t.apart (t.madeSince s.nodes.size) := by
        rw [Store.madeSince_append hs.registry.base_le h.size_le]
        exact List.countP_append
    _ = s.apart (s.madeSince base) := by rw [hnew, h.apart_eq fun _ hn => hn, Nat.add_zero]

namespace SpacesBuilt

variable {s t : Store} {d : SetId}

/-- A namespace that is not the root has no parent exactly if its path stays apart, for all are settled. -/
theorem parent_eq_none_iff (h : SpacesBuilt d s t) {n : NodeId} (hn : n ∈ t.madeSince s.nodes.size)
    (hroot : (t.node n).path ≠ Path.root) :
    (t.node n).parent = none ↔ Path.StaysApart (t.node n).path := by
  constructor
  · intro hfree
    rcases h.settled n hn with hsome | hnone
    · rw [hfree] at hsome
      cases hsome
    · exact ⟨hroot, Path.lineage_eq_nil_iff.2 hnone⟩
  · intro hapart
    cases hparent : (t.node n).parent with
    | none => rfl
    | some m => exact absurd hapart (Path.not_staysApart_of_parentKey (h.forest.above n hn m hparent).2)

/-- The namespaces without a parent are as many as there are paths that stay apart. -/
theorem length_unparented (h : SpacesBuilt d s t) :
    (t.unparented d).length = t.apart (t.madeSince s.nodes.size) := by
  rw [Store.unparented, h.forest.registry.nodes_eq, ← List.countP_eq_length_filter]
  refine List.countP_congr fun n hn => ?_
  rw [Bool.and_eq_true, Bool.not_eq_true', Node.isRoot, beq_eq_false_iff_ne,
    Option.isNone_iff_eq_none, decide_eq_true_eq]
  constructor
  · rintro ⟨hroot, hfree⟩
    exact (h.parent_eq_none_iff hn hroot).1 hfree
  · intro hapart
    exact ⟨hapart.1, (h.parent_eq_none_iff hn hapart.1).2 hapart⟩

/-- The empty path names no namespace. -/
theorem path_ne_empty (h : SpacesBuilt d s t) {n : NodeId} (hn : n ∈ t.madeSince s.nodes.size) :
    (t.node n).path ≠ "" := by
  refine (h.key _ (h.forest.registry.mem_keys.2 ⟨n, hn, rfl⟩)).ne_empty ?_
  rintro _ ⟨e, -, rfl⟩
  exact Path.orRoot_ne_empty _

/-- A namespace that stays apart was declared, and nothing hangs below it. -/
theorem alone_of_staysApart (h : SpacesBuilt d s t) {n : NodeId}
    (hn : n ∈ t.madeSince s.nodes.size) (hapart : Path.StaysApart (t.node n).path) :
    s.DeclaresSpace d (t.node n).path ∧ (t.node n).children = .empty ∧
      ∀ m ∈ t.madeSince s.nodes.size, (t.node m).parent ≠ some n := by
  have hdeclared : s.DeclaresSpace d (t.node n).path :=
    (h.key _ (h.forest.registry.mem_keys.2 ⟨n, hn, rfl⟩)).of_staysApart hapart
  have hbelow : ∀ m ∈ t.madeSince s.nodes.size, (t.node m).parent ≠ some n := fun m hm hparent =>
    Path.not_staysApart_above (h.forest.above m hm n hparent).2 hapart
  refine ⟨hdeclared, ?_, hbelow⟩
  cases hentries : (t.node n).children.entries with
  | nil => exact congrArg Ledger.mk hentries
  | cons pair rest =>
    have hkey : pair.1 ∈ (t.node n).children.keys := by
      rw [Ledger.keys, hentries]
      exact List.mem_cons_self
    obtain ⟨child, hchild⟩ := Ledger.mem_keys_iff.1 hkey
    obtain ⟨hmade, hparent, -⟩ := h.forest.below n hn _ _ hchild
    exact absurd hparent (hbelow child hmade)

end SpacesBuilt

/-! ## The whole build -/

/-- **The namespaces without a parent.**  A namespace other than the root has none exactly if its parent
    path is there and, with a separator in front, is no qualified name; it was declared then, and nothing
    hangs below it.  The last line of the build tells their number. -/
theorem buildSpaces_unparented {s : Store} {d : SetId} (hcode : s.DescribesCode d)
    (hkinds : s.FiledByKind d) :
    Ensures (buildSpaces d) s fun _ t =>
      (∀ n ∈ Index.nodes (t.index d Tree.spaces.indexName), (t.node n).path ≠ Path.root →
        ((t.node n).parent = none ↔ (t.node n).parentPath ≠ "" ∧
          ∃ fault, QualifiedName.parse (Path.rooted (t.node n).parentPath) = .error fault)) ∧
      (∀ n ∈ t.unparented d, s.DeclaresSpace d (t.node n).path ∧ (t.node n).children = .empty ∧
        ∀ m ∈ Index.nodes (t.index d Tree.spaces.indexName), (t.node m).parent ≠ some n) ∧
      ∃ u : Store, t = u.record spaceLogger Level.debug ("Built namespace tree with "
        ++ toString (t.index d Tree.spaces.indexName).size ++ " namespaces ("
        ++ toString (t.unparented d).length ++ " unparented)") := by
  have hne : elementsIndex ≠ Tree.spaces.indexName := by decide
  have hkinds_fresh : ∀ e ∈ s.declared d Tree.spaces.kinds,
      ((s.freshSpaces d).element e).kind ∈ Tree.spaces.kinds := by
    intro e he
    rw [(sameInput_freshSpaces s d).kind]
    exact hkinds.kind_of_mem_declared he
  rw [ensures_buildSpaces hcode]
  refine (bindSpaces_ensures (SpacesBound.rooted s d) hkinds_fresh).mono fun _ t ht => ?_
  rw [ht.forest.registry.nodes_eq]
  refine ((linkSpaces_ensures hne _ t ht.forest fun _ hn => hn).and
    (linkSpaces_apart hne _ t ht.forest fun _ hn => hn)).mono ?_
  rintro apart u ⟨hu, hcount⟩
  have hbuilt : SpacesBuilt d s u := .of_linked ht hu
  have hnodes := hbuilt.forest.registry.nodes_eq
  have hnumber : (u.unparented d).length = apart := by
    rw [hbuilt.length_unparented, hu.grow.apart_made ht.forest]
    exact hcount.symm
  refine ⟨?_, ?_, u, ?_⟩
  · intro n hn hroot
    have hn : n ∈ u.madeSince s.nodes.size := hnodes ▸ hn
    have hparent : (u.node n).parentPath = (Path.split (u.node n).path).1 :=
      congrArg Prod.fst (hbuilt.forest.formed n hn)
    show (u.node n).parent = none ↔ (u.node n).parentPath ≠ "" ∧ _
    rw [hbuilt.parent_eq_none_iff hn hroot, Path.staysApart_iff (hbuilt.path_ne_empty hn) hroot,
      ← hparent]
    rfl
  · intro n hn
    obtain ⟨hn, hroot, hfree⟩ := Store.mem_unparented.1 hn
    have hn : n ∈ u.madeSince s.nodes.size := hnodes ▸ hn
    have halone := hbuilt.alone_of_staysApart hn ((hbuilt.parent_eq_none_iff hn hroot).1 hfree)
    rw [← hnodes] at halone
    exact halone
  · rw [← hnumber]
    rfl

/-- A class in `\1nvalid\Child`, whose parent path is no qualified name: its namespace stays apart, and a journal
that takes debug lines shows one such namespace at the end. -/
theorem buildSpaces_unparented_malformed :
    let s := { Store.ofDeclared [.declare .classType "\\Ok\\Cls" "" (.path "\\1nvalid\\Child") .unset] with
      journal := ((Journal.fresh .empty "12:00").configure (.word "debug") none).1 }
    s.DescribesCode ⟨0⟩ ∧ s.FiledByKind ⟨0⟩ ∧
      Ensures (buildSpaces ⟨0⟩) s fun _ t =>
        (∃ n ∈ Index.nodes (t.index ⟨0⟩ Tree.spaces.indexName), (t.node n).path = "\\1nvalid\\Child" ∧
          (t.node n).parent = none ∧ (t.node n).children = .empty) ∧
        t.journal.console.getLast? =
          some "[doccompiler] DEBUG Built namespace tree with 2 namespaces (1 unparented)" := by
  intro s
  have hcode : s.DescribesCode ⟨0⟩ := by decide
  have hkinds : s.FiledByKind ⟨0⟩ := by decide
  refine ⟨hcode, hkinds, ?_⟩
  have hshown : (match buildSpaces ⟨0⟩ s with
      | .ok _ t => t.journal.console.getLast?
      | .error _ _ => none) =
        some "[doccompiler] DEBUG Built namespace tree with 2 namespaces (1 unparented)" := by
    decide +kernel
  obtain ⟨_, t, hrun, hbuilt, hparent, halone, -⟩ :=
    (buildSpaces_ensures hcode hkinds).and (buildSpaces_unparented hcode hkinds)
  rw [hrun] at hshown
  refine ⟨_, t, hrun, ?_, hshown⟩
  have hdeclared : s.DeclaresSpace ⟨0⟩ "\\1nvalid\\Child" := ⟨⟨1⟩, by decide, by decide⟩
  obtain ⟨n, hn, hpath⟩ := hbuilt.forest.registry.mem_keys.1 (hbuilt.named _ hdeclared)
  have hmem : n ∈ Index.nodes (t.index ⟨0⟩ Tree.spaces.indexName) := by
    rw [hbuilt.forest.registry.nodes_eq]
    exact hn
  have hroot : (t.node n).path ≠ Path.root := by
    rw [hpath]
    decide
  have hfree : (t.node n).parent = none := by
    refine (hparent n hmem hroot).2 ?_
    have hspace : (t.node n).parentPath = "\\1nvalid" := by
      rw [show (t.node n).parentPath = (Path.split (t.node n).path).1 from
        congrArg Prod.fst (hbuilt.forest.formed n hn), hpath]
      decide
    rw [hspace]
    exact ⟨by decide, .malformed "\\1nvalid", rfl⟩
  exact ⟨n, hmem, hpath, hfree, (halone n (Store.mem_unparented.2 ⟨hmem, hroot, hfree⟩)).2.1⟩

end Docset
