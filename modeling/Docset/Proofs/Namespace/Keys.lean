/-
  Which namespaces a build registers.

  **The theorem** (`buildSpaces_keys`): the keys of the index are the least set of paths that holds the
  root and the declared paths and is closed under going up, and each key stands for the namespace of that
  path.  The order of elements, and where climbs stop, leave no trace in it.

  The proof puts the two runs together.  Binding registers the declared paths (`bindSpaces_ensures`);
  linking adds only what lies above registered ones, and leaves every namespace settled
  (`linkSpaces_ensures`).  A settled namespace with a path above it hangs off a REGISTERED one, so the
  keys are closed.  `SpacesBuilt` keeps what later theorems need of the result.
-/
import Docset.Proofs.Namespace.Linking

namespace Docset

open Build

/-! ## The start of a build -/

/-- The store with a fresh root, which is all that the index holds. -/
def Store.freshSpaces (s : Store) (d : SetId) : Store :=
  (((s.addNode .spaceRoot).1.updateCode d fun code =>
    { code with spaceRoot := ⟨s.nodes.size⟩ }).openIndex d elementsIndex .empty).setIndex d
      Tree.spaces.indexName (Ledger.empty.put Path.root (.node ⟨s.nodes.size⟩))

section Start

variable {s : Store} {d : SetId}

theorem sameInput_freshSpaces (s : Store) (d : SetId) : Store.SameInput d s (s.freshSpaces d) := by
  have hmade : Store.SameInput d s (s.addNode .spaceRoot).1 := .of_eq rfl rfl
  have hrooted := hmade.trans (.updateCode _ d (f := fun code =>
    { code with spaceRoot := ⟨s.nodes.size⟩ }) fun _ => rfl)
  have hopened := hrooted.trans (.openIndex _ d elementsIndex .empty)
  exact hopened.trans (.setIndex _ d Tree.spaces.indexName _)

theorem nodes_freshSpaces (s : Store) (d : SetId) :
    (s.freshSpaces d).nodes = (s.addNode .spaceRoot).1.nodes := by
  rw [Store.freshSpaces, Store.setIndex, Store.openIndex_eq]
  rfl

theorem elements_freshSpaces (s : Store) (d : SetId) : (s.freshSpaces d).elements = s.elements := by
  rw [Store.freshSpaces, Store.setIndex, Store.openIndex_eq]
  rfl

theorem node_freshSpaces (s : Store) (d : SetId) (n : NodeId) :
    (s.freshSpaces d).node n = if n = ⟨s.nodes.size⟩ then .spaceRoot else s.node n := by
  rw [Store.node, nodes_freshSpaces]
  exact Store.node_addNode s .spaceRoot n

theorem code_freshSpaces (s : Store) (d : SetId) :
    ((s.freshSpaces d).docSet d).code =
      (s.docSet d).code.map fun code => { code with spaceRoot := ⟨s.nodes.size⟩ } := by
  rw [Store.freshSpaces, Store.setIndex, Store.docSet_updateSet, Store.code_openIndex,
    Store.updateCode, Store.docSet_updateSet]
  rfl

/-- A fresh root changes no name: an element that refers to its row, which was not written before, named
    the root already. -/
theorem namedSpace_freshSpaces (s : Store) (d : SetId) (e : ElementId) :
    (s.freshSpaces d).namedSpace e = s.namedSpace e := by
  have helement : (s.freshSpaces d).element e = s.element e := by
    rw [Store.element, Store.element, elements_freshSpaces]
  rw [Store.namedSpace, Store.namedSpace, Store.spacePath, Store.spacePath, helement]
  cases (s.element e).space with
  | path text => rfl
  | node n =>
    show Path.orRoot ((s.freshSpaces d).node n).path = Path.orRoot (s.node n).path
    rw [node_freshSpaces]
    split
    · rename_i hn
      have hblank : s.node n = default := by
        rw [hn]
        exact Table.get_of_size_le (Nat.le_refl _)
      rw [hblank]
      rfl
    · rfl

theorem forest_freshSpaces (s : Store) (d : SetId) :
    SpaceForest d Tree.spaces.indexName s.nodes.size (s.freshSpaces d) := by
  refine .start ?_ ?_ ?_
  · rw [nodes_freshSpaces]
    exact Store.size_addNode s .spaceRoot
  · rw [node_freshSpaces, if_pos rfl]
  · rw [Store.freshSpaces, Store.index_setIndex, if_pos rfl]

/-- With the root alone registered, binding can begin. -/
theorem SpacesBound.fresh (s : Store) (d : SetId) :
    SpacesBound d Tree.spaces.indexName s.nodes.size (s.freshSpaces d) [] (s.freshSpaces d) where
  input := .refl d _
  code := rfl
  forest := forest_freshSpaces s d
  key := by
    intro p hp
    rw [Store.freshSpaces, Store.index_setIndex, if_pos rfl, Ledger.mem_keys_put] at hp
    rcases hp with hp | hp
    · exact Or.inl hp
    · cases hp
  named := fun e he => by cases he
  path := fun _ => Or.inl rfl

/-- Entering namespaces in another index keeps what binding keeps. -/
theorem SpacesBound.enter {index elements : String} {base : Nat} {s₀ : Store}
    {done : List ElementId} (h : SpacesBound d index base s₀ done s) (helements : elements ≠ index)
    (key : String) (entry : Entry) : SpacesBound d index base s₀ done (s.putEntry d elements key entry) := by
  have hindex : (s.putEntry d elements key entry).index d index = s.index d index := by
    rw [Store.index_putEntry, if_neg helements]
  refine ⟨h.input.trans (.putEntry s d elements key entry),
    (Store.code_putEntry s d elements key entry).trans h.code, h.forest.congr rfl hindex fun _ => rfl,
    ?_, ?_, ?_⟩
  · rw [hindex]
    exact h.key
  · rw [hindex]
    exact h.named
  · rw [hindex]
    exact h.path

/-- The store at which binding begins: the fresh root stands in the index of elements as well. -/
def Store.rootedSpaces (s : Store) (d : SetId) : Store :=
  (s.freshSpaces d).putEntry d elementsIndex Node.spaceRoot.indexKey (.node ⟨s.nodes.size⟩)

theorem nodes_rootedSpaces (s : Store) (d : SetId) :
    (s.rootedSpaces d).nodes = (s.addNode .spaceRoot).1.nodes := nodes_freshSpaces s d

theorem elements_rootedSpaces (s : Store) (d : SetId) : (s.rootedSpaces d).elements = s.elements :=
  elements_freshSpaces s d

theorem SpacesBound.rooted (s : Store) (d : SetId) :
    SpacesBound d Tree.spaces.indexName s.nodes.size (s.freshSpaces d) [] (s.rootedSpaces d) :=
  (SpacesBound.fresh s d).enter (by decide) Node.spaceRoot.indexKey (.node ⟨s.nodes.size⟩)

/-- **The stages of a build**: elements are bound, then what is registered is linked, and last a message
    is recorded. -/
theorem ensures_buildSpaces {Q : Unit → Store → Prop} (hcode : s.DescribesCode d) :
    Ensures (buildSpaces d) s Q ↔
      Ensures (bindSpaces d Tree.spaces.indexName (s.declared d Tree.spaces.kinds)) (s.rootedSpaces d)
        fun _ t => Ensures (linkSpaces d Tree.spaces.indexName elementsIndex
            (Index.nodes (t.index d Tree.spaces.indexName))) t
          fun apart u => Q () (u.record spaceLogger Level.debug ("Built namespace tree with "
            ++ toString (u.index d Tree.spaces.indexName).size ++ " namespaces ("
            ++ toString apart ++ " unparented)")) := by
  obtain ⟨code, hcode⟩ := Option.isSome_iff_exists.1 hcode
  have hroot : (s.freshSpaces d).node ⟨s.nodes.size⟩ = .spaceRoot := by
    rw [node_freshSpaces, if_pos rfl]
  have hdeclared : (s.rootedSpaces d).declared d Tree.spaces.kinds = s.declared d Tree.spaces.kinds :=
    ((sameInput_freshSpaces s d).trans (SpacesBound.rooted s d).input).declared Tree.spaces.kinds
  rw [buildSpaces, ensures_bind, ensures_get, hcode]
  dsimp only
  rw [ensures_bind, ensures_addNode, ensures_bind, ensures_change, ensures_bind, ensures_change,
    ensures_bind, ensures_change, ensures_bind]
  show Ensures (enterSpace d elementsIndex ⟨s.nodes.size⟩) (s.freshSpaces d) _ ↔ _
  rw [enterSpace, ensures_change, hroot, ensures_bind, ensures_get]
  show Ensures (bindSpaces d Tree.spaces.indexName ((s.rootedSpaces d).declared d Tree.spaces.kinds) >>= _)
    (s.rootedSpaces d) Q ↔ _
  rw [hdeclared, ensures_bind]
  simp only [ensures_bind, ensures_get, ensures_mapError, ensures_debug]

end Start

/-! ## The whole build -/

/-- The set declares something in the namespace of a path. -/
def Store.DeclaresSpace (s : Store) (d : SetId) (path : String) : Prop :=
  ∃ e ∈ s.declared d Tree.spaces.kinds, s.namedSpace e = path

/-- The node is the first one made since row `base`, or one made later that has a parent. -/
def Store.Attached (s : Store) (base : Nat) (n : NodeId) : Prop :=
  n ∈ s.madeSince base ∧ (n = ⟨base⟩ ∨ (s.node n).parent.isSome = true)

/-- What a build leaves: a forest of its own, in which nothing is left to link. -/
structure SpacesBuilt (d : SetId) (s t : Store) : Prop where
  input : Store.SameInput d s t
  code : (t.docSet d).code =
    (s.docSet d).code.map fun code => { code with spaceRoot := ⟨s.nodes.size⟩ }
  forest : SpaceForest d Tree.spaces.indexName s.nodes.size t
  settled : ∀ n ∈ t.madeSince s.nodes.size, t.Settled n
  named : ∀ p, s.DeclaresSpace d p → p ∈ (t.index d Tree.spaces.indexName).keys
  key : ∀ p ∈ (t.index d Tree.spaces.indexName).keys, Path.Closure (s.DeclaresSpace d) p

namespace SpacesBuilt

variable {s t u : Store} {d : SetId}

/-- Binding and then linking what was bound makes the whole. -/
theorem of_linked
    (ht : SpacesBound d Tree.spaces.indexName s.nodes.size (s.freshSpaces d)
      (s.declared d Tree.spaces.kinds) t)
    (hu : SpacesLinked d Tree.spaces.indexName s.nodes.size t (t.madeSince s.nodes.size) u) :
    SpacesBuilt d s u where
  input := (sameInput_freshSpaces s d).trans (ht.input.trans hu.grow.sameInput)
  code := (hu.grow.code.trans ht.code).trans (code_freshSpaces s d)
  forest := hu.grow.forest
  settled := by
    intro n hn
    refine hu.settled n hn ?_
    by_cases hold : n ∈ t.madeSince s.nodes.size
    · exact Or.inr hold
    · exact Or.inl hold
  named := by
    rintro p ⟨e, he, rfl⟩
    have hkey := ht.named e he
    rw [namedSpace_freshSpaces] at hkey
    exact hu.grow.mem_keys ht.forest hkey
  key := by
    intro p hp
    refine (hu.grow.key p hp).of_given fun q hq => ?_
    rcases ht.key q hq with rfl | ⟨e, he, rfl⟩
    · exact .root
    · exact .given ⟨e, he, (namedSpace_freshSpaces s d e).symm⟩

theorem record (h : SpacesBuilt d s t) (logger : String) (level : Level) (text : String) :
    SpacesBuilt d s (t.record logger level text) where
  input := h.input.trans (.record t d logger level text)
  code := h.code
  forest := h.forest.congr rfl rfl fun _ => rfl
  settled := h.settled
  named := h.named
  key := h.key

/-- The keys are closed under going up, and nothing else is there. -/
theorem mem_keys (h : SpacesBuilt d s t) {p : String} :
    p ∈ (t.index d Tree.spaces.indexName).keys ↔ Path.Closure (s.DeclaresSpace d) p := by
  constructor
  · exact h.key p
  · intro hp
    induction hp with
    | root => exact h.forest.root_mem
    | given hp => exact h.named _ hp
    | above _ hup ih =>
      obtain ⟨n, hn, rfl⟩ := h.forest.registry.mem_keys.1 ih
      -- A settled namespace hangs off a registered one.
      obtain ⟨m, hm, -, rfl⟩ := h.forest.parent_of_settled hn (h.settled n hn) hup
      exact h.forest.registry.mem_keys.2 ⟨m, hm, rfl⟩

/-- A parent is the root, or it has a parent: no walk up is stuck half-way. -/
theorem attached_of_parent (h : SpacesBuilt d s t) {n m : NodeId} (hn : n ∈ t.madeSince s.nodes.size)
    (hm : (t.node n).parent = some m) : t.Attached s.nodes.size m := by
  obtain ⟨hmade, hup⟩ := h.forest.above n hn m hm
  refine ⟨hmade, ?_⟩
  by_cases hroot : (t.node m).path = Path.root
  · left
    apply h.forest.registry.eq_of_path hmade h.forest.root_made
    rw [hroot, h.forest.root_path]
  · right
    obtain ⟨next, hnext⟩ := Path.exists_parentKey hup hroot
    obtain ⟨m', -, hm', -⟩ := h.forest.parent_of_settled hmade (h.settled m hmade) hnext
    rw [hm']
    rfl

end SpacesBuilt

/-- **Every build ends well**, and leaves what it should. -/
theorem buildSpaces_ensures {s : Store} {d : SetId} (hcode : s.DescribesCode d)
    (hkinds : s.FiledByKind d) :
    Ensures (buildSpaces d) s fun _ t => SpacesBuilt d s t := by
  rw [ensures_buildSpaces hcode]
  refine (bindSpaces_ensures (SpacesBound.rooted s d) fun e he => ?_).mono fun _ t ht => ?_
  · rw [(sameInput_freshSpaces s d).kind]
    exact hkinds.kind_of_mem_declared he
  · rw [ht.forest.registry.nodes_eq]
    refine (linkSpaces_ensures (by decide) _ t ht.forest fun _ hn => hn).mono fun apart u hu => ?_
    exact (SpacesBuilt.of_linked ht hu).record _ _ _

/-- **The namespaces of a build**: the keys are the least set that holds the root and the declared paths
    and is closed under going up, and each stands for the namespace with that path, formed after it. -/
theorem buildSpaces_keys {s : Store} {d : SetId} (hcode : s.DescribesCode d)
    (hkinds : s.FiledByKind d) :
    Ensures (buildSpaces d) s fun _ t =>
      (∀ p, p ∈ (t.index d Tree.spaces.indexName).keys ↔ Path.Closure (s.DeclaresSpace d) p) ∧
      ∀ p ∈ (t.index d Tree.spaces.indexName).keys, ∃ n,
        (t.index d Tree.spaces.indexName).get? p = some (.node n) ∧ (t.node n).tree = .spaces ∧
          (t.node n).path = p ∧ ((t.node n).parentPath, (t.node n).name) = Path.split p := by
  refine (buildSpaces_ensures hcode hkinds).mono fun _ t h => ⟨fun p => h.mem_keys, ?_⟩
  intro p hp
  obtain ⟨n, hn, rfl⟩ := h.forest.registry.mem_keys.1 hp
  exact ⟨n, h.forest.registry.get?_path hn, h.forest.registry.tree_eq n hn, rfl, h.forest.formed n hn⟩

/-- A class in `\A\B` alone: `\A` is registered for it, and the root. -/
theorem buildSpaces_keys_above :
    let s := Store.ofDeclared [.declare .classType "\\A\\B\\X" "" (.path "\\A\\B") .unset]
    s.DescribesCode ⟨0⟩ ∧ s.FiledByKind ⟨0⟩ ∧
      Ensures (buildSpaces ⟨0⟩) s fun _ t => ∀ p ∈ ["\\", "\\A", "\\A\\B"],
        ∃ n, (t.index ⟨0⟩ Tree.spaces.indexName).get? p = some (.node n) ∧ (t.node n).path = p := by
  intro s
  have hcode : s.DescribesCode ⟨0⟩ := by decide
  have hkinds : s.FiledByKind ⟨0⟩ := by decide
  have hdeep : Path.Closure (s.DeclaresSpace ⟨0⟩) "\\A\\B" := .given ⟨⟨1⟩, by decide, by decide⟩
  have habove : Path.Closure (s.DeclaresSpace ⟨0⟩) "\\A" := hdeep.above rfl
  refine ⟨hcode, hkinds, (buildSpaces_keys hcode hkinds).mono fun _ t h p hp => ?_⟩
  have hneeded : Path.Closure (s.DeclaresSpace ⟨0⟩) p := by
    rcases List.mem_cons.1 hp with rfl | hp
    · exact .root
    · rcases List.mem_cons.1 hp with rfl | hp
      · exact habove
      · rw [List.mem_singleton.1 hp]
        exact hdeep
  obtain ⟨n, hget, -, hpath, -⟩ := h.2 p ((h.1 p).2 hneeded)
  exact ⟨n, hget, hpath⟩

end Docset
