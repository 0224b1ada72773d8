/-
  Whether the tree of namespaces can be walked down as well as up.

  A namespace knows its parent by PATH, and is kept among the parent's children by NAME.  Going up always
  works; going down works for those that are kept.  The two agree unless two namespaces claim one name
  under one parent, and then the one that was linked last is kept and the other is out of reach.

  1. Below any path but the root, path and name determine each other (`Path.eq_of_parentKey`), so such a
     **clash** is possible under the root alone: `A`, `\A` and `\\A` are three paths one step below it,
     all named `A`.
  2. Where nothing clashes, every namespace that has a parent is kept there, and so is reached from the
     root, by induction on the height of its path.
  3. Where two paths clash, one of the two namespaces is neither kept nor reached.

  So each of the two laws holds EXACTLY if no two needed paths clash (`buildSpaces_children`), and both
  hold where all declared paths start with one separator (`buildSpaces_children_absolute`).
-/
import Docset.Proofs.Namespace.Keys
import Docset.Proofs.Walks

namespace Docset

open Build

/-! ## Clashes -/

/-- Two needed paths one step below the root have the same name. -/
def Path.Clash (needed : String → Prop) : Prop :=
  ∃ p q, p ≠ q ∧ needed p ∧ needed q ∧ Path.parentKey p = .ok Path.root ∧
    Path.parentKey q = .ok Path.root ∧ (Path.split p).2 = (Path.split q).2

/-- Clashing paths differ in their leading separators alone. -/
theorem Path.Clash.spelling {needed : String → Prop} (h : Path.Clash needed) :
    ∃ name p q, p ≠ q ∧ needed p ∧ needed q ∧
      (p = name ∨ p = Path.root ++ name ∨ p = Path.root ++ Path.root ++ name) ∧
      (q = name ∨ q = Path.root ++ name ∨ q = Path.root ++ Path.root ++ name) := by
  obtain ⟨p, q, hne, hp, hq, hup_p, hup_q, hname⟩ := h
  refine ⟨(Path.split p).2, p, q, hne, hp, hq, Path.of_parentKey_root hup_p, ?_⟩
  rw [hname]
  exact Path.of_parentKey_root hup_q

/-! ### Paths with one separator in front -/

/-- Whether a path is the root, or starts with exactly one separator. -/
def Path.Absolute (path : String) : Prop :=
  path = Path.root ∨ ∃ c rest, path.toList = Path.separator :: c :: rest ∧ c ≠ Path.separator

instance (path : String) : Decidable (Path.Absolute path) :=
  decidable_of_iff (path = Path.root ∨ (path.toList.head? = some Path.separator ∧
    path.toList[1]?.isSome = true ∧ path.toList[1]? ≠ some Path.separator)) (by
      rw [Path.Absolute]
      rcases path.toList with _ | ⟨c, _ | ⟨c', rest⟩⟩
      · simp
      · simp
      · simp [and_assoc])

/-- What is above an absolute path is absolute. -/
theorem Path.Absolute.above {path above : String} (h : Path.Absolute path)
    (hup : Path.parentKey path = .ok above) : Path.Absolute above := by
  rcases Path.of_parentKey hup with ⟨hroot, -⟩ | ⟨hempty, hpath, -⟩
  · exact Or.inl hroot
  rcases h with rfl | ⟨c, rest, htext, hc⟩
  · rw [Path.parentKey_root] at hup
    cases hup
  -- The parent is what the path starts with, so it starts in the same way.
  have hstart : above.toList ++ Path.separator :: (Path.split path).2.toList =
      Path.separator :: c :: rest := by
    rw [← Path.toList_child, ← hpath, htext]
  cases hlist : above.toList with
  | nil => exact absurd (String.toList_eq_nil_iff.1 hlist) hempty
  | cons x more =>
    rw [hlist, List.cons_append] at hstart
    obtain ⟨rfl, htail⟩ := List.cons.inj hstart
    cases more with
    | nil =>
      refine Or.inl (String.toList_inj.1 ?_)
      rw [hlist]
      rfl
    | cons y more =>
      obtain ⟨rfl, -⟩ := List.cons.inj htail
      exact Or.inr ⟨y, more, hlist, hc⟩

/-- Absolute paths do not clash: one step below the root they are a separator and their name. -/
theorem Path.not_clash_of_absolute {needed : String → Prop} (h : ∀ p, needed p → Path.Absolute p) :
    ¬ Path.Clash needed := by
  have hspelled : ∀ p, needed p → Path.parentKey p = .ok Path.root →
      p = Path.root ++ (Path.split p).2 := by
    intro p hp hup
    have hname := Path.separator_not_mem_split p
    rcases h p hp with rfl | ⟨c, rest, htext, hc⟩
    · rw [Path.parentKey_root] at hup
      cases hup
    · rcases Path.of_parentKey_root hup with hpath | hpath | hpath
      · rw [← hpath, htext] at hname
        exact absurd List.mem_cons_self hname
      · exact hpath
      · rw [hpath, String.toList_append, String.toList_append] at htext
        exact absurd (List.cons.inj (List.cons.inj htext).2).1.symm hc
  rintro ⟨p, q, hne, hp, hq, hup_p, hup_q, hname⟩
  refine hne ?_
  rw [hspelled p hp hup_p, hspelled q hq hup_q, hname]

/-- What is needed for absolute paths is absolute. -/
theorem Path.Absolute.of_closure {given : String → Prop} (h : ∀ p, given p → Path.Absolute p)
    {path : String} (hpath : Path.Closure given path) : Path.Absolute path := by
  induction hpath with
  | root => exact Or.inl rfl
  | given hp => exact h _ hp
  | above _ hup ih => exact ih.above hup

/-- So nothing that is needed for absolute paths clashes. -/
theorem Path.not_clash_closure {given : String → Prop} (h : ∀ p, given p → Path.Absolute p) :
    ¬ Path.Clash (Path.Closure given) :=
  Path.not_clash_of_absolute fun _ hp => .of_closure h hp

/-! ## Following children -/

namespace SpaceForest

variable {d : SetId} {index : String} {base : Nat} {s : Store}

/-- Children of a namespace of the forest are namespaces of the forest. -/
theorem made_of_reaches (h : SpaceForest d index base s) {n : NodeId} (hn : s.Reaches ⟨base⟩ n) :
    n ∈ s.madeSince base := by
  induction hn with
  | top => exact h.root_made
  | child _ hc ih => exact (h.below _ ih _ _ hc).1

/-- Whatever is reached is kept by its parent, if it has one. -/
theorem kept_of_reaches (h : SpaceForest d index base s) {n m : NodeId} (hn : s.Reaches ⟨base⟩ n)
    (hm : (s.node n).parent = some m) : (s.node m).children.get? (s.node n).name = some n := by
  cases hn with
  | top =>
    -- Nothing is above the root.
    have hup := (h.above _ h.root_made m hm).2
    rw [h.root_path, Path.parentKey_root] at hup
    cases hup
  | child hreached hc =>
    obtain ⟨-, hparent, hname⟩ := h.below _ (h.made_of_reaches hreached) _ _ hc
    rw [hm] at hparent
    cases hparent
    rw [hname]
    exact hc

/-- Going down undoes going up, unless two namespaces under the root have the same name. -/
theorem kept_of_no_clash (h : SpaceForest d index base s)
    (hclash : ¬ Path.Clash (· ∈ (s.index d index).keys)) {n m : NodeId} (hn : n ∈ s.madeSince base)
    (hm : (s.node n).parent = some m) : (s.node m).children.get? (s.node n).name = some n := by
  obtain ⟨hmade_m, hup_n⟩ := h.above n hn m hm
  obtain ⟨c, hc⟩ := h.kept n hn m hm
  obtain ⟨hmade_c, hparent_c, hname_c⟩ := h.below m hmade_m _ c hc
  have hup_c := (h.above c hmade_c m hparent_c).2
  have hname : (Path.split (s.node n).path).2 = (Path.split (s.node c).path).2 := by
    rw [← (h.formed n hn).name_eq, ← (h.formed c hmade_c).name_eq, hname_c]
  have hpath : (s.node n).path = (s.node c).path := by
    by_cases hroot : (s.node m).path = Path.root
    · rw [hroot] at hup_n hup_c
      refine Decidable.byContradiction fun hne => hclash ?_
      exact ⟨_, _, hne, h.registry.mem_keys.2 ⟨n, hn, rfl⟩, h.registry.mem_keys.2 ⟨c, hmade_c, rfl⟩,
        hup_n, hup_c, hname⟩
    · exact Path.eq_of_parentKey hup_n hup_c hname hroot
  rw [h.registry.eq_of_path hn hmade_c hpath]
  rw [h.registry.eq_of_path hn hmade_c hpath] at hc
  exact hc

end SpaceForest

/-! ## After a build -/

namespace SpacesBuilt

variable {s t : Store} {d : SetId}

/-- The namespaces of the index are those that the build made. -/
theorem mem_nodes (h : SpacesBuilt d s t) {n : NodeId} :
    n ∈ Index.nodes (t.index d Tree.spaces.indexName) ↔ n ∈ t.madeSince s.nodes.size := by
  rw [h.forest.registry.nodes_eq]

/-- Where everybody is kept, everybody with a parent is reached. -/
theorem reaches_of_kept (h : SpacesBuilt d s t)
    (hkept : ∀ n ∈ t.madeSince s.nodes.size, ∀ m, (t.node n).parent = some m →
      (t.node m).children.get? (t.node n).name = some n) {n : NodeId}
    (hn : n ∈ t.madeSince s.nodes.size) (hsome : (t.node n).parent.isSome = true) :
    t.Reaches ⟨s.nodes.size⟩ n := by
  have hdown : ∀ x, t.Attached s.nodes.size x → x ≠ ⟨s.nodes.size⟩ → ∃ m key,
      t.Attached s.nodes.size m ∧ (t.node m).children.get? key = some x ∧
        Path.height (t.node m).path < Path.height (t.node x).path := by
    rintro x ⟨hx, hlinked⟩ hroot
    obtain ⟨m, hm⟩ := Option.isSome_iff_exists.1 (hlinked.resolve_left hroot)
    exact ⟨m, _, h.attached_of_parent hx hm, hkept x hx m hm,
      Path.height_parentKey_lt (h.forest.above x hx m hm).2⟩
  exact Store.reaches_of_level hdown ⟨hn, Or.inr hsome⟩

/-- Where two paths clash, the two namespaces cannot both be kept. -/
theorem not_clash_of_kept (h : SpacesBuilt d s t)
    (hkept : ∀ n ∈ t.madeSince s.nodes.size, ∀ m, (t.node n).parent = some m →
      (t.node m).children.get? (t.node n).name = some n) :
    ¬ Path.Clash (Path.Closure (s.DeclaresSpace d)) := by
  rintro ⟨p, q, hne, hp, hq, hup_p, hup_q, hname⟩
  -- A needed path one step below the root belongs to a namespace that the root keeps.
  have hroot : ∀ path, Path.Closure (s.DeclaresSpace d) path → Path.parentKey path = .ok Path.root →
      ∃ n, (t.node n).path = path ∧
        (t.node ⟨s.nodes.size⟩).children.get? (Path.split path).2 = some n := by
    intro path hpath hup
    obtain ⟨n, hn, rfl⟩ := h.forest.registry.mem_keys.1 (h.mem_keys.2 hpath)
    obtain ⟨m, hmade, hm, hmroot⟩ := h.forest.parent_of_settled hn (h.settled n hn) hup
    have hmtop := h.forest.registry.eq_of_path hmade h.forest.root_made
      (hmroot.trans h.forest.root_path.symm)
    refine ⟨n, rfl, ?_⟩
    rw [← hmtop, ← (h.forest.formed n hn).name_eq]
    exact hkept n hn m hm
  obtain ⟨n, rfl, hn⟩ := hroot p hp hup_p
  obtain ⟨n', rfl, hn'⟩ := hroot q hq hup_q
  rw [hname, hn'] at hn
  cases hn
  exact hne rfl

theorem kept_iff (h : SpacesBuilt d s t) :
    (∀ n ∈ t.madeSince s.nodes.size, ∀ m, (t.node n).parent = some m →
      (t.node m).children.get? (t.node n).name = some n) ↔
        ¬ Path.Clash (Path.Closure (s.DeclaresSpace d)) := by
  constructor
  · exact h.not_clash_of_kept
  · intro hclash n hn m hm
    refine h.forest.kept_of_no_clash (fun hkeys => hclash ?_) hn hm
    obtain ⟨p, q, hne, hp, hq, hrest⟩ := hkeys
    exact ⟨p, q, hne, h.mem_keys.1 hp, h.mem_keys.1 hq, hrest⟩

theorem reaches_iff (h : SpacesBuilt d s t) :
    (∀ n ∈ t.madeSince s.nodes.size, (t.node n).parent.isSome = true → t.Reaches ⟨s.nodes.size⟩ n) ↔
      ¬ Path.Clash (Path.Closure (s.DeclaresSpace d)) := by
  constructor
  · intro hreached
    refine h.not_clash_of_kept fun n hn m hm => ?_
    refine h.forest.kept_of_reaches (hreached n hn ?_) hm
    rw [hm]
    rfl
  · intro hclash n hn hsome
    exact h.reaches_of_kept (h.kept_iff.2 hclash) hn hsome

end SpacesBuilt

/-- Where all paths that are declared start with exactly one separator, no namespace is lost: each that
    has a parent is kept there under its name, and is reached from the root. -/
theorem buildSpaces_children_absolute {s : Store} {d : SetId} (hcode : s.DescribesCode d)
    (hkinds : s.FiledByKind d) (habsolute : ∀ p, s.DeclaresSpace d p → Path.Absolute p) :
    Ensures (buildSpaces d) s fun _ t =>
      ∀ n ∈ Index.nodes (t.index d Tree.spaces.indexName), ∀ m, (t.node n).parent = some m →
        (t.node m).children.get? (t.node n).name = some n ∧ t.Reaches ⟨s.nodes.size⟩ n := by
  have hclash := Path.not_clash_closure habsolute
  refine (buildSpaces_ensures hcode hkinds).mono fun _ t h n hn m hm => ?_
  rw [h.mem_nodes] at hn
  refine ⟨h.kept_iff.2 hclash n hn m hm, h.reaches_iff.2 hclash n hn ?_⟩
  rw [hm]
  rfl

/-- **The children of a build**: whoever is found as a child has the parent and the name that its place
    says; and every namespace with a parent is kept there under its name, and is reached from the root,
    exactly if no two needed paths one step below the root have one name. -/
theorem buildSpaces_children {s : Store} {d : SetId} (hcode : s.DescribesCode d)
    (hkinds : s.FiledByKind d) :
    Ensures (buildSpaces d) s fun _ t =>
      (∀ m ∈ Index.nodes (t.index d Tree.spaces.indexName), ∀ key c,
        (t.node m).children.get? key = some c → (t.node c).parent = some m ∧ (t.node c).name = key) ∧
      ((∀ n ∈ Index.nodes (t.index d Tree.spaces.indexName), ∀ m, (t.node n).parent = some m →
        (t.node m).children.get? (t.node n).name = some n) ↔
          ¬ Path.Clash (Path.Closure (s.DeclaresSpace d))) ∧
      ((∀ n ∈ Index.nodes (t.index d Tree.spaces.indexName), (t.node n).parent.isSome = true →
        ∃ code, (t.docSet d).code = some code ∧ t.Reaches code.spaceRoot n) ↔
          ¬ Path.Clash (Path.Closure (s.DeclaresSpace d))) := by
  refine (buildSpaces_ensures hcode hkinds).mono fun _ t h => ⟨?_, ?_, ?_⟩
  · intro m hm key c hc
    exact (h.forest.below m (h.mem_nodes.1 hm) key c hc).2
  · rw [← h.kept_iff, h.forest.registry.nodes_eq]
  · rw [← h.reaches_iff, h.forest.registry.nodes_eq]
    obtain ⟨code, hcode⟩ := Option.isSome_iff_exists.1 hcode
    rw [h.code, hcode]
    constructor
    · intro hall n hn hsome
      obtain ⟨found, hfound, hreached⟩ := hall n hn hsome
      cases hfound
      exact hreached
    · intro hall n hn hsome
      exact ⟨_, rfl, hall n hn hsome⟩

/-- A class in `\A` and one in `A`: the two namespaces clash, and one of them is lost to those who go
    down from the root. -/
theorem buildSpaces_children_lost :
    let s := Store.ofDeclared [.declare .classType "\\A\\X" "" (.path "\\A") .unset,
      .declare .classType "A\\Y" "" (.path "A") .unset]
    s.DescribesCode ⟨0⟩ ∧ s.FiledByKind ⟨0⟩ ∧
      Ensures (buildSpaces ⟨0⟩) s fun _ t =>
        ¬ (∀ n ∈ Index.nodes (t.index ⟨0⟩ Tree.spaces.indexName), ∀ m, (t.node n).parent = some m →
          (t.node m).children.get? (t.node n).name = some n) ∧
        ¬ (∀ n ∈ Index.nodes (t.index ⟨0⟩ Tree.spaces.indexName), (t.node n).parent.isSome = true →
          ∃ code, (t.docSet ⟨0⟩).code = some code ∧ t.Reaches code.spaceRoot n) := by
  intro s
  have hcode : s.DescribesCode ⟨0⟩ := by decide
  have hkinds : s.FiledByKind ⟨0⟩ := by decide
  have hclash : Path.Clash (Path.Closure (s.DeclaresSpace ⟨0⟩)) := by
    have hrooted : Path.Closure (s.DeclaresSpace ⟨0⟩) "\\A" := .given ⟨⟨1⟩, by decide, by decide⟩
    have hbare : Path.Closure (s.DeclaresSpace ⟨0⟩) "A" := .given ⟨⟨2⟩, by decide, by decide⟩
    exact ⟨"\\A", "A", by decide, hrooted, hbare, rfl, rfl, by decide⟩
  refine ⟨hcode, hkinds, (buildSpaces_children hcode hkinds).mono fun _ t h => ⟨?_, ?_⟩⟩
  · intro hkept
    exact h.2.1.1 hkept hclash
  · intro hreached
    exact h.2.2.1 hreached hclash

end Docset
