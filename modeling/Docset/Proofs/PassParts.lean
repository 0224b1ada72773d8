/-
  The passes of the library and their parts of the store.

  A pass has a part of the store if it leaves all else alone, and does the same again after work on another
  part (`Pass.Parted`).  What it leaves is its footprint (`buildSpaces_within` and the like).  That it does
  the same again is what two builds side by side come to (`buildSpaces_abreast` and the like), with twins
  read as numbers that are counted on (`Store.Repeats.of_alike`).

  * The indexes of elements, and the index, the root and the bindings of the packages, are made anew: what
    was there before does not matter.
  * So are those of the namespaces; but these write into the index of elements besides, whatever stands
    there.  After work on another part there stand the same elements and the same old nodes, and old nodes
    keep their numbers, since a whole store knows them (`Store.Whole.beside`).
  * Source text goes from the files of the set, and nothing else is made or changed.
-/
import Docset.Proofs.ElementKeys
import Docset.Proofs.FromScratch
import Docset.Proofs.Parts
import Docset.Proofs.Whole

namespace Docset

open Build Refers

variable {ε : Type} {d : SetId} {s s₁ s₂ t t₁ t₂ : Store}

/-! ## Twins are counted on -/

namespace Pairing

variable {w : Pairing} {n₁ n₂ : NodeId}

theorem Twins.eq_shift (h : w.Twins n₁ n₂) : n₂ = n₁.shift w.base₁ w.base₂ := by
  obtain ⟨hbase, htwin⟩ := h
  rw [NodeId.shift, if_neg (Nat.not_lt.2 hbase)]
  obtain ⟨row₂⟩ := n₂
  exact congrArg NodeId.mk (by dsimp only at htwin; omega)

theorem twins_shift (hbase : w.base₁ ≤ n₁.row) : w.Twins n₁ (n₁.shift w.base₁ w.base₂) := by
  rw [NodeId.shift, if_neg (Nat.not_lt.2 hbase)]
  exact ⟨hbase, by dsimp only; omega⟩

end Pairing

/-- Nodes that are alike up to twins are alike up to numbers. -/
theorem Node.Alike.eq_renumber {R : NodeId → NodeId → Prop} {f : NodeId → NodeId} {x₁ x₂ : Node}
    (h : Node.Alike R x₁ x₂) (hR : ∀ a b, R a b → b = f a) : x₂ = renumber f x₁ := by
  have hchildren := h.children.eq_renumber hR
  have hparent : x₂.parent = renumber f x₁.parent := by
    have hrel := h.parent
    generalize x₁.parent = parent₁ at hrel ⊢
    generalize x₂.parent = parent₂ at hrel ⊢
    cases hrel with
    | none => rfl
    | some hab => exact congrArg some (hR _ _ hab)
  obtain ⟨role₁, name₁, path₁, parent₁, children₁, members₁⟩ := x₁
  obtain ⟨role₂, name₂, path₂, parent₂, children₂, members₂⟩ := x₂
  obtain ⟨rfl, rfl, rfl, -, -, rfl⟩ := h
  dsimp only at hparent hchildren
  rw [hparent, hchildren]
  rfl

theorem Entry.Alike.eq_renumber {R : NodeId → NodeId → Prop} {f : NodeId → NodeId} {x₁ x₂ : Entry}
    (h : Entry.Alike R x₁ x₂) (hR : ∀ a b, R a b → b = f a) : x₂ = renumber f x₁ := by
  cases h with
  | element e => rfl
  | node hab => exact congrArg Entry.node (hR _ _ hab)

/-- **Work done side by side is done again**, where it makes all of its part anew. -/
theorem Store.Repeats.of_alike {part : Part} {fresh : Fresh}
    (h : Store.Alike ⟨d, s₁.nodes.size, d, s₂.nodes.size⟩ fresh t₁ t₂)
    (hindex : ∀ name ∈ part.indexes, name ∈ fresh.indexes ∨ t₂.index? d name =
      renumber (NodeId.shift s₁.nodes.size s₂.nodes.size) (t₁.index? d name))
    (hroots : part.roots ⊆ fresh.roots) (hbound : part.bound ⊆ fresh.bound)
    (hsources : part.sources = []) : Store.Repeats d part s₁ t₁ s₂ t₂ where
  size := h.next.2
  node := fun n hn => (h.node _ _ (Pairing.twins_shift hn)).eq_renumber fun _ _ => Pairing.Twins.eq_shift
  index := by
    intro name hname
    rcases hindex name hname with hfresh | heq
    · obtain ⟨i₁, i₂, hi₁, hi₂, hi⟩ := h.index name hfresh
      rw [hi₁, hi₂]
      refine congrArg some (hi.eq_renumber fun x₁ x₂ hx => ?_)
      exact hx.eq_renumber fun _ _ => Pairing.Twins.eq_shift
    · exact heq
  root := by
    intro tree htree
    obtain ⟨code₁, code₂, hcode₁, hcode₂, htwins⟩ := h.root tree (hroots htree)
    rw [Store.rootOf, Store.rootOf, hcode₁, hcode₂]
    exact congrArg some htwins.eq_shift
  place := by
    intro tree e he
    obtain ⟨n₁, n₂, hn₁, hn₂, htwins⟩ := h.bound tree e (hbound he)
    rw [Element.placeIn_of_boundTo hn₁, Element.placeIn_of_boundTo hn₂]
    exact congrArg PackageRef.node htwins.eq_shift
  file := by
    rw [hsources]
    exact fun _ he => absurd he List.not_mem_nil

/-! ## What is left -/

namespace Store.Leaves

variable {part : Part}

/-- The journal is no part of anything. -/
theorem of_journal (part : Part) (helements : t.elements = s.elements) (hnodes : t.nodes = s.nodes)
    (hsets : t.sets = s.sets) : Leaves d part s t := by
  obtain ⟨elements, nodes, sets, journal⟩ := t
  dsimp only at helements hnodes hsets
  subst helements hnodes hsets
  exact ⟨.of_eq rfl rfl, rfl, Nat.le_refl _, fun _ _ => rfl, fun _ _ => rfl, fun _ _ => rfl,
    fun _ _ _ => rfl, fun _ _ => rfl⟩

theorem record (part : Part) (s : Store) (logger : String) (level : Level) (text : String) :
    Leaves d part s (s.record logger level text) :=
  of_journal part rfl rfl rfl

theorem trans {u : Store} (hst : Leaves d part s t) (htu : Leaves d part t u) : Leaves d part s u where
  input := hst.input.trans htu.input
  settings := htu.settings.trans hst.settings
  size_le := Nat.le_trans hst.size_le htu.size_le
  old := fun n hn => (htu.old n (Nat.lt_of_lt_of_le hn hst.size_le)).trans (hst.old n hn)
  index := fun name hname => (htu.index name hname).trans (hst.index name hname)
  root := fun tree htree => (htu.root tree htree).trans (hst.root tree htree)
  place := fun tree e he => (htu.place tree e he).trans (hst.place tree e he)
  file := fun e he => (htu.file e he).trans (hst.file e he)

theorem setIndex (s : Store) {name : String} (hname : name ∈ part.indexes) (index : Index) :
    Leaves d part s (s.setIndex d name index) := by
  have hcode : ((s.setIndex d name index).docSet d).code = (s.docSet d).code := by
    rw [Store.setIndex, docSet_updateSet]
  refine ⟨.setIndex s d name index, ?_, Nat.le_refl _, fun _ _ => rfl, fun other hother => ?_,
    fun tree _ => ?_, fun _ _ _ => rfl, fun _ _ => rfl⟩
  · rw [Store.setIndex, docSet_updateSet]
  · have hne : name ≠ other := by
      rintro rfl
      exact hother hname
    rw [index?_setIndex, if_neg hne]
  · rw [Store.rootOf, Store.rootOf, hcode]

end Store.Leaves

/-- The part of the build of a tree: indexes, the root, and bindings to the tree. -/
def Part.ofTree (tree : Tree) (names : List String) (es : List ElementId) : Part where
  indexes := names
  roots := [tree]
  bound := es.map (tree, ·)
  sources := []

/-- Elements are bound in turn, and the last one comes first among those that were bound. -/
theorem Part.bound_ofTree_subset (tree : Tree) (names : List String) (es : List ElementId)
    (rest : List (Tree × ElementId)) :
    (Part.ofTree tree names es).bound ⊆ es.reverse.map (tree, ·) ++ rest := by
  rw [List.map_reverse]
  exact fun _ hx => List.mem_append_left _ (List.mem_reverse.2 hx)

/-- A build of a tree that keeps within indexes and bindings, and leaves the other root and all old nodes,
    leaves what is not its part. -/
theorem Store.Within.leaves {tree : Tree} {names : List String} {es : List ElementId}
    (h : Store.Within d tree names es s t) (hsize : s.nodes.size ≤ t.nodes.size)
    (hold : ∀ n : NodeId, n.row < s.nodes.size → t.node n = s.node n)
    (hroot : ∀ other, other ≠ tree → t.rootOf d other = s.rootOf d other) :
    Store.Leaves d (.ofTree tree names es) s t where
  input := h.input
  settings := h.settings
  size_le := hsize
  old := hold
  index := h.index
  root := fun other hother => hroot other fun heq => hother (List.mem_singleton.2 heq)
  place := by
    intro other e he
    by_cases htree : other = tree
    · have hes : e ∉ es := fun hmem => he (List.mem_map.2 ⟨e, hmem, by rw [htree]⟩)
      rw [h.element e hes]
    · -- A binding to the one tree does not show in the other.
      have hunbound : ∀ x : Element, (x.unbound tree).placeIn other = x.placeIn other := by
        intro x
        cases tree with
        | spaces =>
          cases other with
          | spaces => exact absurd rfl htree
          | packages => rfl
        | packages =>
          cases other with
          | spaces => rfl
          | packages => exact absurd rfl htree
      rw [← hunbound, h.unbound, hunbound]
  file := by
    intro e _
    have hunbound : ∀ x : Element, (x.unbound tree).file = x.file := by
      intro x
      cases tree with
      | spaces => rfl
      | packages => rfl
    rw [← hunbound, h.unbound, hunbound]

/-! ## Passes and their parts -/

/-- The pass has a part of the store, which is a function of the input.  It leaves all else alone; and
    begun after work on other parts it does the same again. -/
structure Pass.Parted (p : Pass) (d : SetId) (part : Store → Part) : Prop where
  same : ∀ {s t}, Store.SameInput d s t → part t = part s
  leaves : ∀ {s}, s.Promised d → s.Whole d →
    Ensures (p.run d) s fun _ t => Store.Leaves d (part s) s t
  repeats : ∀ {s₁ s₂ other}, s₁.Promised d → s₁.Whole d → Store.SameReading d s₁ s₂ →
    Store.Leaves d other s₁ s₂ → other.Apart (part s₁) →
    Abreast (p.run d) s₁ (p.run d) s₂ fun _ t₁ _ t₂ => Store.Repeats d (part s₁) s₁ t₁ s₂ t₂

/-! ### The indexes of elements -/

/-- The part of the indexes of elements. -/
def Part.ofElements : Part := ⟨⟨elementsIndex :: kindIndexes.map Prod.snd, [], []⟩, []⟩

theorem indexElements_leaves (hcode : s.DescribesCode d) :
    Ensures (indexElements d : Build ε Unit) s fun _ t => Store.Leaves d .ofElements s t := by
  obtain ⟨code, hsome⟩ := Option.isSome_iff_exists.1 hcode
  have hkinds : Store.Leaves d .ofElements s (s.withElementIndexes d) := by
    rw [Store.withElementIndexes]
    refine List.foldlRecOn (motive := fun t => Store.Leaves d .ofElements s t) kindIndexes _
      (.setIndex s List.mem_cons_self _) fun t ht pair hpair => ?_
    exact ht.trans (.setIndex t (List.mem_cons_of_mem _ (List.mem_map.2 ⟨pair, hpair, rfl⟩)) _)
  rw [indexElements, ensures_bind, ensures_get, hsome]
  rw [ensures_bind, ensures_set, ensures_debug]
  exact hkinds.trans (.record _ _ _ _ _)

theorem elementsIndex_parted : Pass.elementsIndex.Parted d fun _ => .ofElements where
  same := fun _ => rfl
  leaves := fun hs _ => ensures_bind.2
    ((indexElements_leaves hs.code).mono fun _ _ ht => ensures_pure.2 ht)
  repeats := by
    intro s₁ s₂ other hs hwhole hreading _ _
    have hstart := (hreading.sameCode hwhole.resolved).inStep
    refine (elementsIndex_advances hs.code s₁ s₂ hstart).mono ?_
    rintro _ t₁ _ t₂ ⟨-, -, ht⟩
    refine .of_alike ht.alike (fun name hname => Or.inl ?_) (List.nil_subset _) (List.nil_subset _) rfl
    rcases List.mem_cons.1 hname with rfl | hname
    · exact List.mem_append_right _ List.mem_cons_self
    · exact List.mem_append_left _ (List.mem_reverse.2 hname)

/-! ### The packages -/

/-- The part of the build of the packages. -/
def Store.packagesPart (s : Store) (d : SetId) : Part :=
  .ofTree .packages [Tree.packages.indexName] (s.packaged d)

theorem buildPackages_leaves (hs : s.Promised d) :
    Ensures (buildPackages d) s fun _ t => Store.Leaves d (s.packagesPart d) s t := by
  obtain ⟨_, t, hrun, hbuilt, hfiled⟩ := (buildPackages_ensures hs.code hs.kinds hs.files).and
    (buildPackages_filed hs.code hs.kinds hs.files)
  have hwithin := (buildPackages_within d s).of_ok hrun
  refine ⟨_, t, hrun, hwithin.leaves hbuilt.forest.registry.base_le hfiled.old fun other hother => ?_⟩
  rw [Store.rootOf, Store.rootOf, hbuilt.code, Option.map_map]
  cases other with
  | spaces => rfl
  | packages => exact absurd rfl hother

theorem packageTree_parted : Pass.packageTree.Parted d (·.packagesPart d) where
  same := by
    intro s t h
    rw [Store.packagesPart, Store.packagesPart, h.packaged]
  leaves := fun hs _ => ensures_bind.2 (ensures_mapError.2
    ((buildPackages_leaves hs).mono fun _ _ ht => ensures_pure.2 ht))
  repeats := by
    intro s₁ s₂ other hs hwhole hreading _ _
    have hstart := (hreading.sameCode hwhole.resolved).inStep
    refine (packageTree_advances hs.code s₁ s₂ hstart).mono ?_
    rintro _ t₁ _ t₂ ⟨-, -, ht⟩
    exact .of_alike ht.alike (fun name hname => Or.inl hname) (List.Subset.refl _)
      (Part.bound_ofTree_subset _ _ _ _) rfl

/-! ### The namespaces -/

/-- The part of the build of the namespaces. -/
def Store.spacesPart (s : Store) (d : SetId) : Part :=
  .ofTree .spaces [Tree.spaces.indexName, elementsIndex] (s.declared d Tree.spaces.kinds)

theorem buildSpaces_leaves (hs : s.Promised d) (hwhole : s.Whole d) :
    Ensures (buildSpaces d) s fun _ t => Store.Leaves d (s.spacesPart d) s t := by
  obtain ⟨_, t, hrun, hbuilt, hfiled⟩ := (buildSpaces_ensures hs.code hs.kinds).and
    (buildSpaces_filed hs.code hs.kinds hwhole.resolved)
  have hwithin := (buildSpaces_within d s).of_ok hrun
  refine ⟨_, t, hrun, hwithin.leaves hbuilt.forest.registry.base_le hfiled.old fun other hother => ?_⟩
  rw [Store.rootOf, Store.rootOf, hbuilt.code, Option.map_map]
  cases other with
  | spaces => exact absurd rfl hother
  | packages => rfl

/-- After a build of the namespaces the root stands in the index of elements. -/
theorem buildSpaces_enters_root (hs : s.Promised d) : Ensures (buildSpaces d) s fun _ t =>
    (t.index d elementsIndex).get? ("~" ++ Path.root) = some (.node ⟨s.nodes.size⟩) := by
  refine ((buildSpaces_ensures hs.code hs.kinds).and (buildSpaces_entered hs.code hs.kinds)).mono ?_
  rintro _ t ⟨hbuilt, hentered, -⟩
  have hroot := hbuilt.forest.registry.get?_path hbuilt.forest.root_made
  rw [hbuilt.forest.root_path] at hroot
  rw [hentered, if_pos hbuilt.forest.root_mem, hroot]

/-- An index in which something stands is there. -/
theorem Store.index?_of_get? {name key : String} {entry : Entry}
    (h : (s.index d name).get? key = some entry) : s.index? d name = some (s.index d name) := by
  rw [Store.index] at h ⊢
  cases hindex : s.index? d name with
  | none =>
    rw [hindex] at h
    cases h
  | some index => rfl

/-- Indexes that are known, and the same, agree up to numbers that are counted on. -/
theorem Store.Whole.beside {name : String} (h : s₁.Whole d)
    (hindex : s₂.index? d name = s₁.index? d name) :
    Store.Beside (fun x y => y = renumber (NodeId.shift s₁.nodes.size s₂.nodes.size) x)
      ⟨d, s₁.nodes.size, d, s₂.nodes.size⟩ name s₁ s₂ := by
  have hsame : s₂.index d name = s₁.index d name := by
    rw [Store.index, Store.index, hindex]
  rw [Store.Beside, hsame]
  refine List.forall₂_same.2 fun pair hpair => ⟨rfl, (renumber_eq_self fun n hn => ?_).symm⟩
  have hmem : n ∈ refs (s₁.index d name) := Ledger.mem_refs.2 ⟨pair.2, List.mem_map.2 ⟨pair, hpair, rfl⟩, hn⟩
  exact if_pos (h.knows_index name n hmem)

theorem namespaceTree_parted : Pass.namespaceTree.Parted d (·.spacesPart d) where
  same := by
    intro s t h
    rw [Store.spacesPart, Store.spacesPart, h.declared]
  leaves := fun hs hwhole => ensures_bind.2 (ensures_mapError.2
    ((buildSpaces_leaves hs hwhole).mono fun _ _ ht => ensures_pure.2 ht))
  repeats := by
    intro s₁ s₂ other hs hwhole hreading hleaves hapart
    have helements : elementsIndex ∉ other.indexes := fun hmem =>
      hapart.indexes _ hmem (List.mem_cons_of_mem _ List.mem_cons_self)
    have hbeside := hwhole.beside (hleaves.index elementsIndex helements)
    have hbuild := buildSpaces_abreast (hreading.sameCode hwhole.resolved).inStep
      (E := fun x y => y = renumber (NodeId.shift s₁.nodes.size s₂.nodes.size) x)
      (fun _ _ hn => congrArg Entry.node hn.eq_shift) hbeside hs.code
    have hroots := (buildSpaces_enters_root hs).abreast (buildSpaces_enters_root (hreading.promised hs))
    refine abreast_bind (abreast_mapError ?_)
    intro a t₁ b t₂ hrun₁ hrun₂
    obtain ⟨hroot₁, hroot₂⟩ := hroots a t₁ b t₂ hrun₁ hrun₂
    have ht := hbuild a t₁ b t₂ hrun₁ hrun₂
    refine abreast_pure (.of_alike ht.step.alike (fun name hname => ?_) (List.Subset.refl _)
      (Part.bound_ofTree_subset _ _ _ _) rfl)
    rcases List.mem_cons.1 hname with rfl | hname
    · exact Or.inl List.mem_cons_self
    · -- The index of elements is not made anew, but what was written into it is the same.
      rw [List.mem_singleton.1 hname, Store.index?_of_get? hroot₁, Store.index?_of_get? hroot₂]
      exact Or.inr (congrArg some (Ledger.Alike.eq_renumber ht.beside fun _ _ hxy => hxy))

/-! ### Source text -/

/-- The files of a set whose source text is not asked for. -/
def Store.sourceless (s : Store) (d : SetId) : List ElementId :=
  if (s.docSet d).includesSource then [] else (s.files d).values

theorem Element.withoutSource_withoutSource (e : Element) :
    e.withoutSource.withoutSource = e.withoutSource := by
  rw [withoutSource, withoutSource]
  cases e.file with
  | none => rfl
  | some data => rfl

theorem Store.element_dropSources (s : Store) (files : List ElementId) (e : ElementId) :
    (s.dropSources files).element e =
      if e ∈ files then (s.element e).withoutSource else s.element e := by
  induction files generalizing s with
  | nil => rfl
  | cons file rest ih =>
    have hfirst := element_updateElement s file Element.withoutSource e
    have hdrop : s.dropSources (file :: rest) =
        (s.updateElement file Element.withoutSource).dropSources rest := rfl
    rw [hdrop, ih, hfirst]
    by_cases hfile : e = file
    · have hmem : e ∈ file :: rest := hfile ▸ List.mem_cons_self
      rw [if_pos hfile, Element.withoutSource_withoutSource, ite_self, if_pos hmem]
    · have hmem : e ∈ file :: rest ↔ e ∈ rest := by
        rw [List.mem_cons, or_iff_right hfile]
      rw [if_neg hfile, if_congr hmem rfl rfl]

theorem Store.dropSources_eq (s : Store) (files : List ElementId) :
    s.dropSources files = { s with elements := (s.dropSources files).elements } := by
  induction files generalizing s with
  | nil => rfl
  | cons file rest ih => exact ih _

/-- **What becomes of files**: their source text goes where it is not asked for, and that is all. -/
theorem removeSources_ensures :
    Ensures (removeSources d : Build ε Unit) s fun _ t =>
      t.nodes = s.nodes ∧ t.sets = s.sets ∧ ∀ e, t.element e =
        if e ∈ s.sourceless d then (s.element e).withoutSource else s.element e := by
  have hstay : s.sourceless d = [] → ∀ e, s.element e =
      if e ∈ s.sourceless d then (s.element e).withoutSource else s.element e := by
    intro hnone e
    rw [hnone, if_neg List.not_mem_nil]
  rw [removeSources, ensures_bind, ensures_get]
  dsimp only
  cases hcode : (s.docSet d).code with
  | none =>
    rw [ensures_pure]
    refine ⟨rfl, rfl, hstay ?_⟩
    rw [Store.sourceless, Store.files, hcode]
    exact ite_self _
  | some code =>
    dsimp only
    split
    · rename_i hasked
      rw [ensures_pure]
      exact ⟨rfl, rfl, hstay (if_pos hasked)⟩
    · rename_i hasked
      have hfiles : s.sourceless d = code.files.values := by
        rw [Store.sourceless, if_neg hasked, Store.files, hcode]
      have hnodes : (s.dropSources code.files.values).nodes = s.nodes := by rw [s.dropSources_eq]
      have hsets : (s.dropSources code.files.values).sets = s.sets := by rw [s.dropSources_eq]
      rw [ensures_bind, ensures_change, ensures_debug, hfiles]
      exact ⟨hnodes, hsets, s.element_dropSources _⟩

/-- The part of the pass over source text. -/
def Store.sourcesPart (s : Store) (d : SetId) : Part := ⟨.nothing, (s.files d).values⟩

theorem Store.sourceless_subset (s : Store) (d : SetId) : s.sourceless d ⊆ (s.files d).values := by
  rw [Store.sourceless]
  split
  · exact List.nil_subset _
  · exact List.Subset.refl _

theorem removeSources_leaves :
    Ensures (removeSources d : Build ε Unit) s fun _ t => Store.Leaves d (s.sourcesPart d) s t := by
  refine (removeSources_inert.and removeSources_ensures).mono ?_
  rintro _ t ⟨hinert, hnodes, hsets, helement⟩
  refine ⟨hinert.input, ?_, ?_, fun n _ => ?_, fun name _ => hinert.index name, fun tree _ => ?_,
    fun tree e _ => ?_, fun e he => ?_⟩
  · rw [Store.docSet, Store.docSet, hsets]
  · exact Nat.le_of_eq (congrArg Table.size hnodes.symm)
  · rw [Store.node, Store.node, hnodes]
  · rw [Store.rootOf, Store.rootOf, hinert.code]
  · cases tree with
    | spaces => rw [Element.placeIn, Element.placeIn, hinert.space]
    | packages => exact hinert.package e
  · rw [helement, if_neg fun hmem => he (s.sourceless_subset d hmem)]

theorem removeSource_parted : Pass.removeSource.Parted d (·.sourcesPart d) where
  same := by
    intro s t h
    rw [Store.sourcesPart, Store.sourcesPart, h.files]
  leaves := fun _ _ => ensures_bind.2 (removeSources_leaves.mono fun _ _ ht => ensures_pure.2 ht)
  repeats := by
    intro s₁ s₂ other _ _ hreading hleaves hapart
    refine abreast_bind ((removeSources_ensures.abreast removeSources_ensures).mono ?_)
    rintro _ t₁ _ t₂ ⟨⟨hnodes₁, -, helement₁⟩, hnodes₂, -, helement₂⟩
    have hsourceless : s₂.sourceless d = s₁.sourceless d := by
      rw [Store.sourceless, Store.sourceless, hreading.input.files, DocSet.includesSource,
        DocSet.includesSource, hleaves.settings]
    refine abreast_pure ⟨?_, fun n hn => ?_, ?_, ?_, ?_, fun e he => ?_⟩
    · rw [hnodes₁, hnodes₂, Nat.add_comm]
    · -- No node is made, so all rows behind are blank.
      have hblank₁ : t₁.node n = default := Store.node_of_size_le (by rw [hnodes₁]; exact hn)
      have hblank₂ : t₂.node (n.shift s₁.nodes.size s₂.nodes.size) = default := by
        refine Store.node_of_size_le ?_
        rw [hnodes₂, NodeId.shift, if_neg (Nat.not_lt.2 hn)]
        exact Nat.le_add_left _ _
      rw [hblank₁, hblank₂]
      rfl
    · exact fun _ hname => absurd hname List.not_mem_nil
    · exact fun _ htree => absurd htree List.not_mem_nil
    · exact fun _ _ hbound => absurd hbound List.not_mem_nil
    · have hfile : (s₂.element e).file = (s₁.element e).file :=
        hleaves.file e fun hmem => hapart.sources e hmem he
      rw [helement₁, helement₂, hsourceless]
      split
      · exact congrArg (Option.map _) hfile
      · exact hfile

end Docset
