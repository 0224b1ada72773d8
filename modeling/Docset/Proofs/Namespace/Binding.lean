/-
  Binding elements to their namespaces.

  One step (`bindSpace_ensures`) looks up the namespace of an element, makes it where it is missing, and
  binds and files the element there.  The namespace that an element names is its path as a text or the
  path of the node it is bound to, and no path names the root (`Path.orRoot`).

  The run (`bindSpaces_ensures`) makes exactly the namespaces that the elements name.  What needs care is
  that binding WRITES what it reads: an element that is listed twice is bound by the time it comes again.
  The invariant `SpacesBound.path` says that this does no harm — an element names what it named at first,
  or else both what it names and what it named are registered already.
-/
import Docset.Proofs.Namespace.Forest

namespace Docset

open Build

/-! ## Naming a namespace -/

/-- The path that a text names: no path names the root. -/
def Path.orRoot (path : String) : String := if path = "" then Path.root else path

theorem Path.orRoot_of_ne {path : String} (h : path ≠ "") : Path.orRoot path = path := if_neg h

theorem Path.orRoot_ne_empty (path : String) : Path.orRoot path ≠ "" := by
  rw [orRoot]
  split
  · decide
  · assumption

theorem Path.orRoot_orRoot (path : String) :
    Path.orRoot (Path.orRoot path) = Path.orRoot path :=
  orRoot_of_ne (orRoot_ne_empty path)

/-- The path of the namespace that an element names. -/
def Store.namedSpace (s : Store) (e : ElementId) : String := Path.orRoot (s.spacePath e)

/-! ## One element -/

/-- The store with an element bound to a namespace and filed there. -/
def Store.bindToSpace (s : Store) (e : ElementId) (n : NodeId) : Store :=
  s.bindAt e n fun element => { element with space := .node n }

section Step

variable {ε : Type} {d : SetId} {index : String} {base : Nat} {s : Store} {e : ElementId}

theorem ensures_createSpace {path : String} {Q : NodeId → Store → Prop} :
    Ensures (createSpace d index path : Build ε NodeId) s Q ↔
      Q ⟨s.nodes.size⟩ (s.withSpace d index path) := by
  rw [createSpace, ensures_bind, ensures_addNode, ensures_bind, ensures_change, ensures_pure]
  rfl

/-- **One step of binding**: the element goes to the namespace that it names, which is there already or
    is made for it. -/
theorem bindSpace_ensures (h : SpaceForest d index base s)
    (hkind : (s.element e).kind ∈ Tree.spaces.kinds) :
    Ensures (bindSpace d index e) s fun _ u => ∃ t n, u = t.bindToSpace e n ∧
      SpaceForest d index base t ∧ n ∈ t.madeSince base ∧ (t.node n).path = s.namedSpace e ∧
      (t = s ∨ (s.namedSpace e ∉ (s.index d index).keys ∧
        t = s.withSpace d index (s.namedSpace e))) := by
  have hbind : ∀ t n, SpaceForest d index base t → n ∈ t.madeSince base →
      t.elements = s.elements →
      Ensures (do
        change (·.updateElement e fun element => { element with space := .node n })
        fileAt n e) t fun _ u => u = t.bindToSpace e n := by
    intro t n ht hn helements
    refine ensures_bindAt (fun _ => rfl) ?_ rfl
    rw [Store.element, helements, ht.registry.tree_eq n hn]
    exact hkind
  rw [bindSpace, ensures_bind, ensures_get, ensures_bind, ensures_mapError, ensures_lookUp]
  rcases h.registry.lookUp_cases (s.namedSpace e) with ⟨n, hn, hpath, hfound⟩ | ⟨hnew, hmissing⟩
  · refine ⟨some n, hfound, ?_⟩
    rw [ensures_bind, ensures_pure]
    refine (hbind s n h hn rfl).mono fun _ u hu => ?_
    exact ⟨s, n, hu, h, hn, hpath, Or.inl rfl⟩
  · refine ⟨none, hmissing, ?_⟩
    rw [ensures_bind, ensures_createSpace]
    have hforest := h.create hnew
    have hmade : (⟨s.nodes.size⟩ : NodeId) ∈
        (s.withSpace d index (s.namedSpace e)).madeSince base := by
      show _ ∈ (s.addNode _).1.madeSince base
      rw [Store.madeSince_addNode h.registry.base_le]
      exact List.mem_append_right _ List.mem_cons_self
    refine (hbind _ _ hforest hmade rfl).mono fun _ u hu => ?_
    refine ⟨_, _, hu, hforest, hmade, ?_, Or.inr ⟨hnew, rfl⟩⟩
    show ((s.addNode _).1.node ⟨s.nodes.size⟩).path = _
    rw [Store.node_addNode_self]
    rfl

/-! ## What a step changes -/

theorem SpaceForest.bindToSpace (h : SpaceForest d index base s) {n : NodeId}
    (hn : n ∈ s.madeSince base) (e : ElementId) : SpaceForest d index base (s.bindToSpace e n) :=
  h.congr (size_bindAt (Store.mem_madeSince.1 hn).2) rfl (sameNodes_bindAt s e n _)

theorem sameInput_bindToSpace (d : SetId) (s : Store) (e : ElementId) (n : NodeId) :
    Store.SameInput d s (s.bindToSpace e n) :=
  sameInput_bindAt d s e n fun _ => rfl

theorem sameInput_withSpace (s : Store) (d : SetId) (index path : String) :
    Store.SameInput d s (s.withSpace d index path) := by
  have hmade : Store.SameInput d s (s.addNode (.ofPath path)).1 := Store.SameInput.of_eq rfl rfl
  exact hmade.trans (Store.SameInput.putEntry _ d index path _)

theorem code_withSpace (s : Store) (d : SetId) (index path : String) :
    ((s.withSpace d index path).docSet d).code = (s.docSet d).code := by
  rw [Store.withSpace, Store.code_putEntry]
  rfl

/-- Making a namespace is growth. -/
theorem Store.Extends.withSpace {s : Store} {base : Nat} (hbase : base ≤ s.nodes.size) (d : SetId)
    (index path : String) : Store.Extends d base s (s.withSpace d index path) :=
  .create (x := .ofPath path) rfl hbase rfl rfl (code_withSpace s d index path)

theorem space_bindToSpace (s : Store) (e : ElementId) (n : NodeId) (x : ElementId) :
    ((s.bindToSpace e n).element x).space = if x = e then .node n else (s.element x).space := by
  rw [Store.bindToSpace, element_bindAt]
  split
  · rfl
  · rfl

/-- After binding, the element names the namespace that it is bound to; all others name what they named. -/
theorem namedSpace_bindToSpace (n : NodeId) (x : ElementId) :
    (s.bindToSpace e n).namedSpace x =
      if x = e then Path.orRoot (s.node n).path else s.namedSpace x := by
  rw [Store.namedSpace, Store.spacePath, space_bindToSpace]
  by_cases hx : x = e
  · rw [if_pos hx, if_pos hx]
    exact congrArg Path.orRoot ((sameNodes_bindAt s e n _).path n)
  · rw [if_neg hx, if_neg hx, Store.namedSpace, Store.spacePath]
    cases (s.element x).space with
    | path text => rfl
    | node m => exact congrArg Path.orRoot ((sameNodes_bindAt s e n _).path m)

/-- A new namespace can change what an element names only if the element referred to a row that was not
    written yet, and so named the root. -/
theorem namedSpace_withSpace (path : String) (x : ElementId) :
    (s.withSpace d index path).namedSpace x = s.namedSpace x ∨
      (s.namedSpace x = Path.root ∧
        (s.withSpace d index path).namedSpace x = Path.orRoot path) := by
  have helement : (s.withSpace d index path).element x = s.element x := rfl
  rw [Store.namedSpace, Store.namedSpace, Store.spacePath, Store.spacePath, helement]
  cases (s.element x).space with
  | path text => exact Or.inl rfl
  | node m =>
    show Path.orRoot ((s.addNode (.ofPath path)).1.node m).path = Path.orRoot (s.node m).path ∨
      (Path.orRoot (s.node m).path = Path.root ∧
        Path.orRoot ((s.addNode (.ofPath path)).1.node m).path = Path.orRoot path)
    by_cases hm : m = ⟨s.nodes.size⟩
    · have hblank : s.node m = default := by
        rw [hm]
        exact Table.get_of_size_le (Nat.le_refl _)
      refine Or.inr ⟨?_, ?_⟩
      · rw [hblank]
        rfl
      · rw [hm, Store.node_addNode_self]
        rfl
    · rw [Store.node_addNode_of_ne hm]
      exact Or.inl rfl

end Step

/-! ## A run over elements -/

/-- The namespaces that `done` names, and the root, are registered and no others are; what an element
    names is what it named in `s₀`, or else both are registered. -/
structure SpacesBound (d : SetId) (index : String) (base : Nat) (s₀ : Store) (done : List ElementId)
    (t : Store) : Prop where
  input : Store.SameInput d s₀ t
  code : (t.docSet d).code = (s₀.docSet d).code
  forest : SpaceForest d index base t
  key : ∀ p ∈ (t.index d index).keys, p = Path.root ∨ ∃ e ∈ done, s₀.namedSpace e = p
  named : ∀ e ∈ done, s₀.namedSpace e ∈ (t.index d index).keys
  path : ∀ e, t.namedSpace e = s₀.namedSpace e ∨
    (t.namedSpace e ∈ (t.index d index).keys ∧ s₀.namedSpace e ∈ (t.index d index).keys)

namespace SpacesBound

variable {d : SetId} {index : String} {base : Nat} {s₀ s : Store} {done : List ElementId}
  {e : ElementId}

/-- What an element named at first is registered as soon as what it names is. -/
theorem named_of_mem (h : SpacesBound d index base s₀ done s)
    (hkey : s.namedSpace e ∈ (s.index d index).keys) : s₀.namedSpace e ∈ (s.index d index).keys := by
  rcases h.path e with hsame | ⟨-, hknown⟩
  · rw [← hsame]
    exact hkey
  · exact hknown

/-- An element whose namespace is registered already adds nothing. -/
theorem met (h : SpacesBound d index base s₀ done s)
    (hkey : s.namedSpace e ∈ (s.index d index).keys) :
    SpacesBound d index base s₀ (done ++ [e]) s := by
  refine ⟨h.input, h.code, h.forest, ?_, ?_, h.path⟩
  · intro p hp
    rcases h.key p hp with hroot | ⟨x, hx, hxp⟩
    · exact Or.inl hroot
    · exact Or.inr ⟨x, List.mem_append_left _ hx, hxp⟩
  · intro x hx
    rcases List.mem_append.1 hx with hx | hx
    · exact h.named x hx
    · rw [List.mem_singleton.1 hx]
      exact h.named_of_mem hkey

/-- An element whose namespace is not registered has it made. -/
theorem create (h : SpacesBound d index base s₀ done s)
    (hnew : s.namedSpace e ∉ (s.index d index).keys) :
    SpacesBound d index base s₀ (done ++ [e]) (s.withSpace d index (s.namedSpace e)) := by
  have hkeys : ∀ p, p ∈ ((s.withSpace d index (s.namedSpace e)).index d index).keys ↔
      p = s.namedSpace e ∨ p ∈ (s.index d index).keys := by
    intro p
    rw [Store.withSpace, Store.index_putEntry, if_pos rfl]
    exact Ledger.mem_keys_put
  -- A path that is not registered yet is the one that the element named at first.
  have hsame : s.namedSpace e = s₀.namedSpace e := by
    rcases h.path e with hsame | ⟨hknown, -⟩
    · exact hsame
    · exact absurd hknown hnew
  refine ⟨h.input.trans (sameInput_withSpace s d index _), (code_withSpace s d index _).trans h.code,
    h.forest.create hnew, ?_, ?_, ?_⟩
  · intro p hp
    rcases (hkeys p).1 hp with rfl | hp
    · exact Or.inr ⟨e, List.mem_append_right _ List.mem_cons_self, hsame.symm⟩
    · rcases h.key p hp with hroot | ⟨x, hx, hxp⟩
      · exact Or.inl hroot
      · exact Or.inr ⟨x, List.mem_append_left _ hx, hxp⟩
  · intro x hx
    rw [hkeys]
    rcases List.mem_append.1 hx with hx | hx
    · exact Or.inr (h.named x hx)
    · rw [List.mem_singleton.1 hx]
      exact Or.inl hsame.symm
  · intro x
    rcases namedSpace_withSpace (d := d) (s := s) (s.namedSpace e) x with hx | ⟨hroot, hx⟩
    · rw [hx, hkeys, hkeys]
      rcases h.path x with hsame | ⟨hknown, hknown₀⟩
      · exact Or.inl hsame
      · exact Or.inr ⟨Or.inr hknown, Or.inr hknown₀⟩
    · -- The element referred to a blank row, so it named the root, and the root is registered.
      rw [hx, hkeys, hkeys]
      refine Or.inr ⟨Or.inl (Path.orRoot_orRoot _), Or.inr (h.named_of_mem ?_)⟩
      rw [hroot]
      exact h.forest.root_mem

/-- Binding an element that is done to a registered namespace keeps what elements name, but for names
    that are registered. -/
theorem bind (h : SpacesBound d index base s₀ done s) {n : NodeId} (hn : n ∈ s.madeSince base)
    (he : e ∈ done) (hname : Path.orRoot (s.node n).path = (s.node n).path) :
    SpacesBound d index base s₀ done (s.bindToSpace e n) := by
  refine ⟨h.input.trans (sameInput_bindToSpace d s e n), h.code, h.forest.bindToSpace hn e, h.key,
    h.named, ?_⟩
  intro x
  rw [namedSpace_bindToSpace]
  split
  · rename_i hxe
    rw [hname, hxe]
    exact Or.inr ⟨h.forest.registry.mem_keys.2 ⟨n, hn, rfl⟩, h.named e he⟩
  · exact h.path x

/-- One step of binding takes the invariant one element further. -/
theorem step (h : SpacesBound d index base s₀ done s)
    (hkind : (s₀.element e).kind ∈ Tree.spaces.kinds) :
    Ensures (bindSpace d index e) s fun _ t => SpacesBound d index base s₀ (done ++ [e]) t := by
  have hlast : e ∈ done ++ [e] := List.mem_append_right _ List.mem_cons_self
  rw [← h.input.kind e] at hkind
  refine (bindSpace_ensures h.forest hkind).mono fun _ u hu => ?_
  obtain ⟨t, n, rfl, -, hn, hpath, hmade⟩ := hu
  have hname : Path.orRoot (t.node n).path = (t.node n).path := by
    rw [hpath]
    exact Path.orRoot_orRoot _
  rcases hmade with rfl | ⟨hnew, rfl⟩
  · have hkey : t.namedSpace e ∈ (t.index d index).keys :=
      h.forest.registry.mem_keys.2 ⟨n, hn, hpath⟩
    exact (h.met hkey).bind hn hlast hname
  · exact (h.create hnew).bind hn hlast hname

end SpacesBound

/-- **A run of binding** makes the namespaces that the elements name, and no others. -/
theorem bindSpaces_ensures {d : SetId} {index : String} {base : Nat} {s₀ s : Store}
    {es : List ElementId} (h : SpacesBound d index base s₀ [] s)
    (hkinds : ∀ e ∈ es, (s₀.element e).kind ∈ Tree.spaces.kinds) :
    Ensures (bindSpaces d index es) s fun _ t => SpacesBound d index base s₀ es t := by
  refine ensures_forEach (fun done t => SpacesBound d index base s₀ done t) h ?_
  intro done e rest t hes ht
  refine ht.step (hkinds e ?_)
  rw [hes]
  exact List.mem_append_right _ List.mem_cons_self

end Docset
