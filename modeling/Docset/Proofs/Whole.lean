/-
  Builds leave no reference that leads nowhere.

  **The theorem** (`Compiler.compile_whole`): on a store that is whole for a set, every run of passes of the
  library ends on one that is.  So a caller who never makes up a number never meets one that was not handed
  out.

  Every change that a build makes keeps a store whole if the nodes that it writes down were made.  And they
  were: a build gets its nodes by making them, or else by looking them up in a store that is whole.  This is
  followed along the steps, for those that end well (`Yields`).
-/
import Docset.Proofs.Reading
import Docset.Proofs.References

namespace Docset

open Build Refers

/-! ## Steps -/

namespace Build

variable {δ ε α β : Type} {s : Store}

/-- If the step ends well, its answer and the store after it are as in `Q`. -/
def Yields (step : Build ε α) (s : Store) (Q : α → Store → Prop) : Prop :=
  ∀ a t, step s = .ok a t → Q a t

theorem Yields.mono {step : Build ε α} {Q R : α → Store → Prop} (h : Yields step s Q)
    (hQR : ∀ a t, Q a t → R a t) : Yields step s R := fun a t hrun => hQR a t (h a t hrun)

/-- What holds if a step ends well holds of a step that does. -/
theorem Yields.ensures {step : Build ε α} {Q R : α → Store → Prop} (h : Yields step s Q)
    (hstep : Ensures step s R) : Ensures step s Q := by
  obtain ⟨a, t, hrun, -⟩ := hstep
  exact ⟨a, t, hrun, h a t hrun⟩

theorem yields_pure {a : α} {Q : α → Store → Prop} (h : Q a s) : Yields (pure a : Build ε α) s Q := by
  intro b t hrun
  cases hrun
  exact h

theorem yields_bind {step : Build ε α} {next : α → Build ε β} {Q : β → Store → Prop}
    (h : Yields step s fun a t => Yields (next a) t Q) : Yields (step >>= next) s Q := by
  intro b u hrun
  obtain ⟨a, t, hstep, hnext⟩ := ok_of_bind hrun
  exact h a t hstep b u hnext

theorem yields_mapError {f : δ → ε} {step : Build δ α} {Q : α → Store → Prop} (h : Yields step s Q) :
    Yields (mapError f step) s Q := fun a t hrun => h a t (ok_of_mapError hrun)

theorem yields_get {Q : Store → Store → Prop} (h : Q s s) : Yields (get : Build ε Store) s Q := by
  intro a t hrun
  cases hrun
  exact h

theorem yields_change {f : Store → Store} {Q : Unit → Store → Prop} (h : Q () (f s)) :
    Yields (change f : Build ε Unit) s Q := by
  intro a t hrun
  cases hrun
  exact h

theorem yields_forEach {step : α → Build ε Unit} {as : List α} {I : Store → Prop} (hs : I s)
    (hstep : ∀ a ∈ as, ∀ t, I t → Yields (step a) t fun _ u => I u) :
    Yields (forEach step as) s fun _ t => I t := by
  induction as generalizing s with
  | nil => exact yields_pure hs
  | cons a rest ih =>
    refine yields_bind ((hstep a List.mem_cons_self s hs).mono fun _ t ht => ?_)
    exact ih ht fun x hx => hstep x (List.mem_cons_of_mem _ hx)

section Whole

variable {d : SetId}

/-- A new node by itself is made. -/
theorem yields_addNode (h : s.Whole d) (role : Role) (name path : String) :
    Yields (addNode (.single role name path) : Build ε NodeId) s fun n t =>
      s.WholeAfter d t ∧ n.row < t.nodes.size := by
  intro n t hrun
  cases hrun
  have hsize := Store.size_addNode s (.single role name path)
  refine ⟨⟨h.addNode fun m hm => (by cases hm), ?_⟩, ?_⟩
  · rw [hsize]
    exact Nat.le_succ _
  · rw [hsize]
    exact Nat.lt_succ_self _

/-- What a look-up finds was made. -/
theorem yields_lookUp (h : s.Whole d) (tree : Tree) (index key : String) :
    Yields (lookUp tree d index key) s fun found t =>
      t = s ∧ ∀ n, found = some n → n.row < s.nodes.size := by
  intro found t hrun
  rw [lookUp, Store.lookUp] at hrun
  cases hget : (s.index d index).get? key with
  | none =>
    rw [hget] at hrun
    cases hrun
    exact ⟨rfl, fun n hn => by cases hn⟩
  | some entry =>
    have hentry : s.Knows entry := fun n hn => h.knows_index index n (Ledger.mem_refs_of_get? hget hn)
    rw [hget] at hrun
    cases entry with
    | element e => cases hrun
    | node n =>
      dsimp only at hrun
      split at hrun
      · rename_i hok
        split at hok
        · cases hok
          cases hrun
          refine ⟨rfl, fun m hm => ?_⟩
          cases hm
          exact hentry n List.mem_cons_self
        · cases hok
      · cases hrun
    | foreign value =>
      cases value <;> cases hrun
      exact ⟨rfl, fun n hn => by cases hn⟩

/-- An element is bound to a node that was made, and filed there. -/
theorem yields_bindAt (h : s.Whole d) (tree : Tree) {n : NodeId} (hn : n.row < s.nodes.size)
    (e : ElementId) : Yields (do change (·.updateElement e (.bindTo tree n)); fileAt n e) s
      fun _ t => s.WholeAfter d t := by
  refine yields_bind (yields_change fun a t hrun => ?_)
  have hbound := h.bindTo e tree hn
  rw [ok_of_fileAt hrun]
  exact .of_size (hbound.updateNode hn (hbound.node n)) (Store.size_updateNode hn _)

end Whole

end Build

section Trees

variable {ε : Type} {d : SetId} {s : Store} {index elements : String}

/-! ## The tree of namespaces -/

theorem createSpace_whole (h : s.Whole d) (path : String) :
    Yields (createSpace d index path : Build ε NodeId) s fun n t =>
      s.WholeAfter d t ∧ n.row < t.nodes.size := by
  refine yields_bind ((yields_addNode h _ _ _).mono ?_)
  rintro n t ⟨ht, hn⟩
  exact yields_bind (yields_change (yields_pure ⟨⟨ht.whole.enter _ _ hn, ht.le⟩, hn⟩))

theorem bindSpace_whole (h : s.Whole d) (e : ElementId) :
    Yields (bindSpace d index e) s fun _ t => s.WholeAfter d t := by
  refine yields_bind (yields_get (yields_bind ((yields_mapError (yields_lookUp h _ _ _)).mono ?_)))
  rintro found _ ⟨rfl, hfound⟩
  cases found with
  | some n => exact yields_bind (yields_pure (yields_bindAt h .spaces (hfound n rfl) e))
  | none =>
    refine yields_bind ((createSpace_whole h _).mono ?_)
    rintro n t ⟨ht, hn⟩
    exact (yields_bindAt ht.whole .spaces hn e).mono fun _ u hu => ht.trans hu

theorem enterSpace_whole (h : s.Whole d) {n : NodeId} (hn : n.row < s.nodes.size) :
    Yields (enterSpace d elements n : Build ε Unit) s fun _ t => s.WholeAfter d t :=
  yields_change (.of_size (h.enter _ _ hn) rfl)

/-- Hanging a node below another. -/
theorem hang_whole (h : s.Whole d) {m n : NodeId} (hm : m.row < s.nodes.size)
    (hn : n.row < s.nodes.size) (key : Store → String) :
    Yields (change fun s => s.addChild m (key s) n : Build ε Unit) s fun _ t => s.WholeAfter d t :=
  yields_change (.of_size (h.addChild hm hn _) (Store.size_addChild hm hn _))

theorem climb_whole (paths : List String) :
    ∀ s n, Store.Whole s d → n.row < s.nodes.size →
      Yields (climb d index elements n paths) s fun _ t => s.WholeAfter d t := by
  induction paths with
  | nil =>
    intro s n h _
    exact yields_bind (yields_get (yields_bind (yields_change (yields_pure
      (.of_size (h.record _ _ _) rfl)))))
  | cons above rest ih =>
    intro s n h hn
    refine yields_bind ((yields_lookUp h _ _ _).mono ?_)
    rintro found _ ⟨rfl, hfound⟩
    cases found with
    | some m =>
      exact yields_bind ((hang_whole h (hfound m rfl) hn _).mono fun _ t ht => yields_pure ht)
    | none =>
      refine yields_bind ((createSpace_whole h above).mono ?_)
      rintro m t ⟨ht, hm⟩
      refine yields_bind ((enterSpace_whole ht.whole hm).mono fun _ u hu => ?_)
      have hnu := hu.row_lt (ht.row_lt hn)
      refine yields_bind ((hang_whole hu.whole (hu.row_lt hm) hnu _).mono fun _ v hv => ?_)
      refine (ih v m hv.whole (hv.row_lt (hu.row_lt hm))).mono fun _ x hx => ?_
      exact ht.trans (hu.trans (hv.trans hx))

theorem linkSpaces_whole (ns : List NodeId) :
    ∀ s, Store.Whole s d → (∀ n ∈ ns, n.row < s.nodes.size) →
      Yields (linkSpaces d index elements ns) s fun _ t => s.WholeAfter d t := by
  induction ns with
  | nil =>
    intro s h _
    exact yields_pure (.of_size h rfl)
  | cons n rest ih =>
    intro s h hns
    have hn := hns n List.mem_cons_self
    refine yields_bind (yields_get ?_)
    dsimp only
    split
    · exact ih s h fun m hm => hns m (List.mem_cons_of_mem _ hm)
    · have hlink : Yields (linkSpace d index elements n) s fun _ t => s.WholeAfter d t := by
        refine yields_bind ((enterSpace_whole h hn).mono fun _ t ht => yields_bind (yields_get ?_))
        exact (climb_whole _ t n ht.whole (ht.row_lt hn)).mono fun _ u hu => ht.trans hu
      refine yields_bind (hlink.mono fun _ t ht => ?_)
      have hrest := ih t ht.whole fun m hm => ht.row_lt (hns m (List.mem_cons_of_mem _ hm))
      exact yields_bind (hrest.mono fun _ u hu => yields_pure (ht.trans hu))

/-- Nodes that stand in an index of a whole store were made. -/
theorem Store.Whole.nodes_index (h : s.Whole d) (name : String) :
    ∀ n ∈ Index.nodes (s.index d name), n.row < s.nodes.size := by
  intro n hn
  obtain ⟨entry, hentry, hnode⟩ := List.mem_filterMap.1 hn
  refine h.knows_index name n (Ledger.mem_refs.2 ⟨entry, hentry, ?_⟩)
  cases entry with
  | node m =>
    cases hnode
    exact List.mem_cons_self
  | element e => cases hnode
  | foreign value => cases hnode

/-- **The tree of namespaces** keeps a store whole. -/
theorem buildSpaces_whole (h : s.Whole d) :
    Yields (buildSpaces d) s fun _ t => s.WholeAfter d t := by
  refine yields_bind (yields_get ?_)
  cases (s.docSet d).code with
  | none => exact yields_pure (.of_size h rfl)
  | some code =>
    refine yields_bind ((yields_addNode h _ _ _).mono ?_)
    rintro root t ⟨ht, hroot⟩
    refine yields_bind (yields_change (yields_bind (yields_change (yields_bind (yields_change ?_)))))
    -- Between the root and the first entry no node is made.
    have hsize : ((t.updateCode d (·.setRoot .spaces root)).openIndex d elementsIndex .empty).nodes.size =
        t.nodes.size := by
      rw [Store.openIndex_eq]
      rfl
    have hopen := (ht.whole.setRoot .spaces hroot).openIndex elementsIndex
    have hset := hopen.setIndex Tree.spaces.indexName
      (Store.knows_root (hsize.symm ▸ hroot) Path.root)
    refine yields_bind ((enterSpace_whole hset (hsize.symm ▸ hroot)).mono fun _ u hu => ?_)
    have htu : s.WholeAfter d u := ht.trans ((Store.WholeAfter.of_size hset hsize).trans hu)
    refine yields_bind (yields_get (yields_bind ?_))
    have hbind : Yields (bindSpaces d Tree.spaces.indexName (u.declared d Tree.spaces.kinds)) u
        fun _ v => u.WholeAfter d v :=
      yields_forEach (.of_size hu.whole rfl) fun e _ v hv =>
        (bindSpace_whole hv.whole e).mono fun _ x hx => hv.trans hx
    refine hbind.mono fun _ v hv => yields_bind (yields_get (yields_bind (yields_mapError ?_)))
    refine (linkSpaces_whole _ v hv.whole (hv.whole.nodes_index _)).mono fun _ x hx => ?_
    refine yields_bind (yields_get (yields_change ?_))
    exact htu.trans (hv.trans (hx.trans (.of_size (hx.whole.record _ _ _) rfl)))

/-! ## The tree of packages -/

theorem openChild_whole (h : s.Whole d) {n : NodeId} (hn : n.row < s.nodes.size) (path name : String) :
    Yields (openChild d index n path name : Build ε NodeId) s fun c t =>
      s.WholeAfter d t ∧ c.row < t.nodes.size := by
  refine yields_bind (yields_get ?_)
  cases hchild : (s.node n).children.get? (childKey name) with
  | some c =>
    refine yields_pure ⟨.of_size h rfl, h.node n c (List.mem_append_right _ ?_)⟩
    exact Ledger.mem_refs_of_get? hchild List.mem_cons_self
  | none =>
    refine yields_bind ((yields_addNode h _ _ _).mono ?_)
    rintro c t ⟨ht, hc⟩
    refine yields_bind ((hang_whole ht.whole (ht.row_lt hn) hc fun _ => _).mono fun _ u hu => ?_)
    have hcu := hu.row_lt hc
    refine yields_bind (yields_change (yields_bind (yields_change (yields_pure ⟨?_, hcu⟩))))
    exact ht.trans (hu.trans (.of_size ((hu.whole.enter _ _ hcu).record _ _ _) rfl))

theorem descend_whole (names : List String) :
    ∀ s n path, Store.Whole s d → n.row < s.nodes.size →
      Yields (descend d index n path names : Build ε NodeId) s fun c t =>
        s.WholeAfter d t ∧ c.row < t.nodes.size := by
  induction names with
  | nil =>
    intro s n path h hn
    exact yields_pure ⟨.of_size h rfl, hn⟩
  | cons name rest ih =>
    intro s n path h hn
    refine yields_bind ((openChild_whole h hn _ name).mono ?_)
    rintro c t ⟨ht, hc⟩
    refine (ih t c _ ht.whole hc).mono ?_
    rintro c' u ⟨hu, hc'⟩
    exact ⟨ht.trans hu, hc'⟩

theorem growPackage_whole (h : s.Whole d) (name : String) :
    Yields (growPackage d index name) s fun n t => s.WholeAfter d t ∧ n.row < t.nodes.size := by
  have hroot : Yields (openPackageRoot d index) s fun n t => s.WholeAfter d t ∧ n.row < t.nodes.size := by
    refine yields_bind ((yields_lookUp h _ _ _).mono ?_)
    rintro found _ ⟨rfl, hfound⟩
    cases found with
    | some n => exact yields_pure ⟨.of_size h rfl, hfound n rfl⟩
    | none =>
      refine yields_bind ((yields_addNode h _ _ _).mono ?_)
      rintro n t ⟨ht, hn⟩
      exact yields_bind (yields_change (yields_pure ⟨⟨ht.whole.enter _ _ hn, ht.le⟩, hn⟩))
  refine yields_bind (hroot.mono ?_)
  rintro root t ⟨ht, hr⟩
  refine (descend_whole _ t root _ ht.whole hr).mono ?_
  rintro n u ⟨hu, hn⟩
  exact ⟨ht.trans hu, hn⟩

theorem bindPackage_whole (h : s.Whole d) (e : ElementId) :
    Yields (bindPackage d index e) s fun _ t => s.WholeAfter d t := by
  -- Wherever the package comes from, the rest of the step is the same.
  have hbind : ∀ (n : NodeId) (t : Store), s.WholeAfter d t ∧ n.row < t.nodes.size →
      Yields (do change (·.updateElement e (.bindTo .packages n)); fileAt n e) t
        fun _ u => s.WholeAfter d u := by
    rintro n t ⟨ht, hn⟩
    exact (yields_bindAt ht.whole .packages hn e).mono fun _ u hu => ht.trans hu
  refine yields_bind (yields_get (yields_bind (yields_mapError (yields_bind ?_))))
  refine (yields_lookUp h _ _ _).mono ?_
  rintro found _ ⟨rfl, hfound⟩
  cases found with
  | some n => exact yields_pure (hbind n _ ⟨.of_size h rfl, hfound n rfl⟩)
  | none => exact (growPackage_whole h _).mono hbind

/-- **The tree of packages** keeps a store whole. -/
theorem buildPackages_whole (h : s.Whole d) :
    Yields (buildPackages d) s fun _ t => s.WholeAfter d t := by
  refine yields_bind (yields_get ?_)
  cases (s.docSet d).code with
  | none => exact yields_pure (.of_size h rfl)
  | some code =>
    refine yields_bind ((yields_addNode h _ _ _).mono ?_)
    rintro root t ⟨ht, hroot⟩
    refine yields_bind (yields_change (yields_bind (yields_change ?_)))
    have hopen := ht.whole.setRoot .packages hroot
    have hset := hopen.setIndex Tree.packages.indexName (Store.knows_root hroot Path.root)
    refine yields_bind (yields_get (yields_bind ?_))
    have hstart : s.WholeAfter d ((t.updateCode d (·.setRoot .packages root)).setIndex d
        Tree.packages.indexName (Ledger.empty.put Path.root (.node root))) :=
      ht.trans (.of_size hset rfl)
    refine (yields_forEach hstart fun e _ v hv =>
      (bindPackage_whole hv.whole e).mono fun _ x hx => hv.trans hx).mono fun _ v hv => ?_
    exact yields_bind (yields_get (yields_change (hv.trans (.of_size (hv.whole.record _ _ _) rfl))))

/-! ## The indexes of elements -/

theorem Store.Whole.withElementIndexes (h : s.Whole d) : (s.withElementIndexes d).Whole d := by
  have hstep : ∀ t : Store, t.Whole d → ∀ pair ∈ kindIndexes,
      (t.setIndex d pair.2 (s.indexOf (s.declared d [pair.1]))).Whole d :=
    fun t ht pair _ => ht.setIndex pair.2 (t.knows_indexOf s _)
  rw [Store.withElementIndexes]
  exact List.foldlRecOn (motive := fun t : Store => t.Whole d) kindIndexes _
    (h.setIndex elementsIndex (s.knows_indexOf s _)) hstep

/-- Indexing elements keeps a store whole. -/
theorem indexElements_whole (h : s.Whole d) :
    Ensures (indexElements d : Build ε Unit) s fun _ t => t.Whole d := by
  rw [indexElements, ensures_bind, ensures_get]
  cases (s.docSet d).code with
  | none =>
    rw [ensures_set]
    exact h.setIndex _ fun n hn => by cases hn
  | some code =>
    rw [ensures_bind, ensures_set, ensures_debug]
    exact h.withElementIndexes.record _ _ _

/-! ## The theorem -/

/-- **Every pass of the library keeps a store whole.** -/
theorem Pass.keeps_whole {p : Pass} (hp : p ∈ Pass.builtin) :
    p.Keeps d (fun s => s.Promised d ∧ s.Whole d) fun s t => Store.SameInput d s t ∧ t.Whole d := by
  rintro s ⟨hs, hwhole⟩
  have hrun : Ensures (p.run d) s fun _ t => t.Whole d := by
    rcases List.mem_cons.1 hp with rfl | hp
    · exact ensures_bind.2 ((indexElements_whole hwhole).mono fun _ _ ht => ensures_pure.2 ht)
    rcases List.mem_cons.1 hp with rfl | hp
    · refine ensures_bind.2 (ensures_mapError.2 ?_)
      exact ((buildSpaces_whole hwhole).ensures (buildSpaces_ensures hs.code hs.kinds)).mono
        fun _ _ ht => ensures_pure.2 ht.whole
    rcases List.mem_cons.1 hp with rfl | hp
    · refine ensures_bind.2 (ensures_mapError.2 ?_)
      exact ((buildPackages_whole hwhole).ensures
        (buildPackages_ensures hs.code hs.kinds hs.files)).mono fun _ _ ht => ensures_pure.2 ht.whole
    · rw [List.mem_singleton.1 hp]
      exact ensures_bind.2 (removeSources_inert.mono fun _ _ ht => ensures_pure.2 (hwhole.of_inert ht))
  refine ((Pass.safe_of_mem_builtin hp s hs).and hrun).mono fun next t ht => ?_
  exact ⟨ht.1.1, ht.1.2, ht.2⟩

theorem Pass.lasting_whole (d : SetId) : Pass.Lasting d (fun s => s.Promised d ∧ s.Whole d)
    fun s t => Store.SameInput d s t ∧ t.Whole d where
  trans := fun hst htu => ⟨hst.1.trans htu.1, htu.2⟩
  inert := fun hs h => ⟨h.input, hs.2.of_inert h⟩
  promise := fun hs h => ⟨h.1.promised hs.1, h.2⟩

/-- **No full build leaves a reference that leads nowhere**, if there was none before. -/
theorem Compiler.compile_whole {c : Compiler} (hc : ∀ p ∈ c.given, p ∈ Pass.builtin)
    (config : Option Config) (hs : s.Promised d) (hwhole : s.Whole d) :
    Ensures (c.compile d config) s fun result t => result = d ∧ t.Whole d :=
  (c.compile_keeps (Pass.lasting_whole d) (fun p hp => Pass.keeps_whole (hc p hp)) config
    ⟨hs, hwhole⟩).mono fun _ _ ht => ⟨ht.1, ht.2.2⟩

end Trees

end Docset
