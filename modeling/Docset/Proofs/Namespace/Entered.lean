/-
  Namespaces in the index of elements.

  A build of the namespaces enters each of them in the index of elements too, under its path with the mark
  `~` in front.  It does so at three places: the root at the start, a namespace whose turn it is to be
  linked, and one that is made on a climb.  A namespace that has a parent when its turn comes is passed
  over, so that nobody is left out takes an argument: whoever hangs another one up has entered it before.

  `SpacesEntered` is the invariant.  It says that a namespace is entered unless it has no parent and is
  still to come (`SpacesEntered.left`), that a marked key stands for a namespace or is as it was
  (`SpacesEntered.marked`), and that all other entries are as they were, in their order
  (`SpacesEntered.others`).  After the run nothing is still to come, so every namespace is entered
  (`buildSpaces_entered`).
-/
import Docset.Proofs.Namespace.Keys

namespace Docset

open Build

/-! ## Marked keys -/

/-- Whether a key of the index of elements has the mark of namespaces in front. -/
def isMarked (key : String) : Bool := key.toList.head? == some '~'

theorem toList_marked (path : String) : ("~" ++ path).toList = '~' :: path.toList := by
  rw [String.toList_append]
  rfl

theorem isMarked_iff {key : String} : isMarked key = true ↔ ∃ path, key = "~" ++ path := by
  rw [isMarked, beq_iff_eq, List.head?_eq_some_iff]
  constructor
  · rintro ⟨rest, hkey⟩
    refine ⟨String.ofList rest, String.toList_inj.1 ?_⟩
    rw [toList_marked, String.toList_ofList, hkey]
  · rintro ⟨path, rfl⟩
    exact ⟨path.toList, toList_marked path⟩

theorem marked_inj {p q : String} : "~" ++ p = "~" ++ q ↔ p = q := by
  constructor
  · intro h
    have hlist := congrArg String.toList h
    rw [toList_marked, toList_marked, List.cons_inj_right] at hlist
    exact String.toList_inj.1 hlist
  · rintro rfl
    rfl

theorem isMarked_indexKey (n : Node) : isMarked n.indexKey = true := isMarked_iff.2 ⟨n.path, rfl⟩

theorem Node.indexKey_inj {n m : Node} : n.indexKey = m.indexKey ↔ n.path = m.path := marked_inj

/-! ## The invariant -/

/-- The namespace stands in the index of elements under its key. -/
def Store.Entered (s : Store) (d : SetId) (elements : String) (n : NodeId) : Prop :=
  (s.index d elements).get? (s.node n).indexKey = some (.node n)

/-- The entries of an index that are not marked, in order. -/
def Index.unmarked (index : Index) : List (String × Entry) :=
  index.entries.filter fun pair => !isMarked pair.1

theorem Index.unmarked_put (index : Index) (n : Node) (entry : Entry) :
    Index.unmarked (index.put n.indexKey entry) = Index.unmarked index := by
  refine Ledger.filter_entries_put (fun key => !isMarked key) ?_ entry
  rw [isMarked_indexKey]
  rfl

/-- The namespaces made since row `base` are entered, but for those that have no parent and are still to
    come, and else the index of elements is as it was in `s₀`. -/
structure SpacesEntered (d : SetId) (index elements : String) (base : Nat) (s₀ : Store)
    (toCome : NodeId → Prop) (s : Store) : Prop where
  root : s.Entered d elements ⟨base⟩
  left : ∀ n ∈ s.madeSince base, s.Entered d elements n ∨ ((s.node n).parent = none ∧ toCome n)
  /-- A marked key that belongs to no namespace is as it was. -/
  marked : ∀ p, p ∉ (s.index d index).keys →
    (s.index d elements).get? ("~" ++ p) = (s₀.index d elements).get? ("~" ++ p)
  others : Index.unmarked (s.index d elements) = Index.unmarked (s₀.index d elements)

namespace SpacesEntered

variable {d : SetId} {index elements : String} {base : Nat} {s₀ s t : Store}
  {toCome later : NodeId → Prop}

/-- What has a parent is entered. -/
theorem of_parent (h : SpacesEntered d index elements base s₀ toCome s) {n : NodeId}
    (hn : n ∈ s.madeSince base) (hparent : (s.node n).parent.isSome = true) : s.Entered d elements n := by
  rcases h.left n hn with hentered | ⟨hnone, -⟩
  · exact hentered
  · rw [hnone] at hparent
    cases hparent

/-- What counts as still to come may be said anew, as long as nobody is forgotten. -/
theorem come (h : SpacesEntered d index elements base s₀ toCome s)
    (hlater : ∀ n ∈ s.madeSince base, toCome n → s.Entered d elements n ∨ later n) :
    SpacesEntered d index elements base s₀ later s := by
  refine ⟨h.root, fun n hn => ?_, h.marked, h.others⟩
  rcases h.left n hn with hentered | ⟨hnone, hcome⟩
  · exact Or.inl hentered
  · exact (hlater n hn hcome).imp id fun hlater => ⟨hnone, hlater⟩

/-- Changes that leave both indexes, paths and parents alone keep the invariant. -/
theorem congr (h : SpacesEntered d index elements base s₀ toCome s)
    (hsize : t.nodes.size = s.nodes.size) (hindex : t.index d index = s.index d index)
    (helements : t.index d elements = s.index d elements)
    (hnode : ∀ n, (t.node n).path = (s.node n).path ∧
      ((t.node n).parent = (s.node n).parent ∨ s.Entered d elements n)) :
    SpacesEntered d index elements base s₀ toCome t := by
  have hentered : ∀ n, s.Entered d elements n → t.Entered d elements n := by
    intro n hn
    rw [Store.Entered, Node.indexKey, (hnode n).1, helements]
    exact hn
  refine ⟨hentered _ h.root, fun n hn => ?_, ?_, ?_⟩
  · rw [Store.madeSince_eq_of_size hsize base] at hn
    rcases h.left n hn with hn | ⟨hnone, hcome⟩
    · exact Or.inl (hentered n hn)
    · rcases (hnode n).2 with hparent | hn
      · exact Or.inr ⟨hparent.trans hnone, hcome⟩
      · exact Or.inl (hentered n hn)
  · rw [hindex, helements]
    exact h.marked
  · rw [helements]
    exact h.others

/-- A new namespace is still to come. -/
theorem create (h : SpacesEntered d index elements base s₀ toCome s) (hne : index ≠ elements)
    (hbase : base < s.nodes.size) (path : String) :
    SpacesEntered d index elements base s₀ (fun n => toCome n ∨ n = ⟨s.nodes.size⟩)
      (s.withSpace d index path) := by
  have helements : (s.withSpace d index path).index d elements = s.index d elements := by
    rw [Store.withSpace, Store.index_putEntry, if_neg hne]
    rfl
  have hmade : (s.withSpace d index path).madeSince base = s.madeSince base ++ [⟨s.nodes.size⟩] :=
    Store.madeSince_addNode (Nat.le_of_lt hbase) _
  have hold : ∀ n ∈ s.madeSince base, (s.withSpace d index path).node n = s.node n := fun n hn =>
    Store.node_addNode_of_ne (Store.ne_size_of_mem_madeSince hn)
  have hentered : ∀ n ∈ s.madeSince base, s.Entered d elements n →
      (s.withSpace d index path).Entered d elements n := by
    intro n hn hentered
    rw [Store.Entered, hold n hn, helements]
    exact hentered
  refine ⟨hentered _ (Store.mem_madeSince.2 ⟨Nat.le_refl _, hbase⟩) h.root, fun n hn => ?_,
    fun p hp => ?_, ?_⟩
  · rw [hmade, List.mem_append, List.mem_singleton] at hn
    rcases hn with hn | rfl
    · rw [hold n hn]
      rcases h.left n hn with hin | ⟨hnone, hcome⟩
      · exact Or.inl (hentered n hn hin)
      · exact Or.inr ⟨hnone, Or.inl hcome⟩
    · have hnew : (s.withSpace d index path).node ⟨s.nodes.size⟩ = .ofPath path :=
        Store.node_addNode_self s _
      rw [hnew]
      exact Or.inr ⟨rfl, Or.inr rfl⟩
  · rw [Store.withSpace, Store.index_putEntry, if_pos rfl, Ledger.mem_keys_put, not_or] at hp
    rw [helements]
    exact h.marked p hp.2
  · rw [helements]
    exact h.others

/-- A namespace that is entered is not to come any more. -/
theorem enter (h : SpacesEntered d index elements base s₀ toCome s)
    (hforest : SpaceForest d index base s) (hne : index ≠ elements) {n : NodeId}
    (hn : n ∈ s.madeSince base) :
    SpacesEntered d index elements base s₀ (fun m => toCome m ∧ m ≠ n)
        (s.putEntry d elements (s.node n).indexKey (.node n)) ∧
      (s.putEntry d elements (s.node n).indexKey (.node n)).Entered d elements n := by
  have hregistry := hforest.registry
  have helements : (s.putEntry d elements (s.node n).indexKey (.node n)).index d elements =
      (s.index d elements).put (s.node n).indexKey (.node n) := by
    rw [Store.index_putEntry, if_pos rfl]
  have hself : (s.putEntry d elements (s.node n).indexKey (.node n)).Entered d elements n := by
    rw [Store.Entered, Store.node_putEntry, helements]
    exact Ledger.get?_put_self _ _ _
  -- A namespace with another path has another key.
  have hentered : ∀ m ∈ s.madeSince base, s.Entered d elements m →
      (s.putEntry d elements (s.node n).indexKey (.node n)).Entered d elements m := by
    intro m hm hin
    by_cases hmn : m = n
    · rw [hmn]
      exact hself
    · have hkey : (s.node n).indexKey ≠ (s.node m).indexKey := fun hkey =>
        hmn (hregistry.eq_of_path hm hn (Node.indexKey_inj.1 hkey).symm)
      rw [Store.Entered, Store.node_putEntry, helements, Ledger.get?_put_of_ne hkey]
      exact hin
  refine ⟨⟨hentered _ hforest.root_made h.root, fun m hm => ?_, fun p hp => ?_, ?_⟩, hself⟩
  · rcases h.left m hm with hin | ⟨hnone, hcome⟩
    · exact Or.inl (hentered m hm hin)
    · by_cases hmn : m = n
      · rw [hmn]
        exact Or.inl hself
      · exact Or.inr ⟨hnone, hcome, hmn⟩
  · rw [Store.index_putEntry, if_neg hne.symm] at hp
    have hkey : (s.node n).indexKey ≠ "~" ++ p := by
      intro hkey
      refine hp (hregistry.mem_keys.2 ⟨n, hn, marked_inj.1 hkey⟩)
    rw [helements, Ledger.get?_put_of_ne hkey]
    exact h.marked p hp
  · rw [helements, Index.unmarked_put]
    exact h.others

/-- Hanging up a namespace that is entered keeps the invariant. -/
theorem link (h : SpacesEntered d index elements base s₀ toCome s) {n m : NodeId}
    (hn : n ∈ s.madeSince base) (hm : m ∈ s.madeSince base) (hentered : s.Entered d elements n)
    (key : String) : SpacesEntered d index elements base s₀ toCome (s.addChild m key n) := by
  refine h.congr ?_ rfl rfl fun x => ⟨Store.path_addChild s m key n x, ?_⟩
  · exact Store.size_addChild (Store.mem_madeSince.1 hm).2 (Store.mem_madeSince.1 hn).2 key
  · rw [Store.parent_addChild]
    by_cases hxn : x = n
    · rw [hxn]
      exact Or.inr hentered
    · rw [if_neg hxn]
      exact Or.inl rfl

/-- Making the namespace above one that is entered, entering it and hanging the other one up keeps the
    invariant. -/
theorem withAbove (h : SpacesEntered d index elements base s₀ toCome s)
    (hforest : SpaceForest d index base s) (hne : index ≠ elements) {n : NodeId}
    (hn : n ∈ s.madeSince base) (hentered : s.Entered d elements n) {above : String}
    (hnew : above ∉ (s.index d index).keys) {t : Store}
    (ht : t = s.withAbove d index elements above n) :
    SpacesEntered d index elements base s₀ toCome t ∧ t.Entered d elements ⟨s.nodes.size⟩ := by
  have hbase := (Store.mem_madeSince.1 hforest.root_made).2
  have hmade : ∀ x, x ∈ s.madeSince base ∨ x = ⟨s.nodes.size⟩ →
      x ∈ (s.withSpace d index above).madeSince base := fun x => hforest.mem_madeSince_withSpace.2
  -- The one below is entered, so it is not to come; this way nothing forgets that it is.
  have hcome : SpacesEntered d index elements base s₀ (fun x => toCome x ∧ x ≠ n) s := by
    refine h.come fun x _ hx => ?_
    by_cases hxn : x = n
    · rw [hxn]
      exact Or.inl hentered
    · exact Or.inr ⟨hx, hxn⟩
  obtain ⟨hentered_all, hself⟩ :=
    (hcome.create hne hbase above).enter (hforest.create hnew) hne (hmade _ (Or.inr rfl))
  rw [Store.withAbove] at ht
  generalize hu : (s.withSpace d index above).putEntry d elements _ _ = u at hentered_all hself ht
  have hmade_u : ∀ x, x ∈ s.madeSince base ∨ x = ⟨s.nodes.size⟩ → x ∈ u.madeSince base := by
    rw [← hu]
    exact hmade
  have hentered_u : u.Entered d elements n := by
    rcases hentered_all.left n (hmade_u n (Or.inl hn)) with hin | ⟨-, hwhich | hlast, hother⟩
    · exact hin
    · exact absurd rfl hwhich.2
    · exact absurd hlast hother
  have hlinked := hentered_all.link (hmade_u n (Or.inl hn)) (hmade_u _ (Or.inr rfl)) hentered_u
    (u.node n).name
  subst ht
  refine ⟨hlinked.come fun x _ hx => Or.inr ?_, ?_⟩
  · rcases hx with ⟨hx | hlast, hother⟩
    · exact hx.1
    · exact absurd hlast hother
  · rw [Store.Entered, Node.indexKey, Store.path_addChild]
    exact hself

end SpacesEntered

/-! ## Binding -/

section Steps

variable {d : SetId} {index elements : String} {base : Nat} {s₀ s : Store}

/-- Binding enters nobody, so all that it makes is still to come. -/
theorem bindSpaces_entered (hne : index ≠ elements) {sb : Store} {es : List ElementId}
    (hbound : SpacesBound d index base sb [] s)
    (hkinds : ∀ e ∈ es, (sb.element e).kind ∈ Tree.spaces.kinds)
    (h : SpacesEntered d index elements base s₀ (fun _ => True) s) :
    Ensures (bindSpaces d index es) s fun _ t =>
      SpacesBound d index base sb es t ∧ SpacesEntered d index elements base s₀ (fun _ => True) t := by
  refine ensures_forEach (fun done t => SpacesBound d index base sb done t ∧
    SpacesEntered d index elements base s₀ (fun _ => True) t) ⟨hbound, h⟩ ?_
  rintro done e rest t rfl ⟨ht, hin⟩
  have hkind := hkinds e (List.mem_append_right _ List.mem_cons_self)
  have hkind_t : (t.element e).kind ∈ Tree.spaces.kinds := by
    rw [ht.input.kind]
    exact hkind
  refine ((ht.step hkind).and (bindSpace_ensures ht.forest hkind_t)).mono fun _ u hu => ⟨hu.1, ?_⟩
  obtain ⟨-, v, n, rfl, -, hn, -, hmade⟩ := hu
  have hin_v : SpacesEntered d index elements base s₀ (fun _ => True) v := by
    rcases hmade with rfl | ⟨-, rfl⟩
    · exact hin
    · have hbase := (Store.mem_madeSince.1 ht.forest.root_made).2
      exact (hin.create hne hbase _).come fun _ _ _ => Or.inr trivial
  have hnodes := sameNodes_bindAt v e n fun element => { element with space := .node n }
  exact hin_v.congr (size_bindAt (Store.mem_madeSince.1 hn).2) rfl rfl fun x =>
    ⟨hnodes.path x, Or.inl (hnodes.parent x)⟩

/-! ## Linking -/

/-- **A climb** from a namespace that is entered enters all that it makes. -/
theorem climb_entered (hne : elements ≠ index) {toCome : NodeId → Prop} (paths : List String) :
    ∀ (s : Store) (n : NodeId), SpaceForest d index base s → n ∈ s.madeSince base →
      (s.node n).parent = none → Path.lineage (s.node n).path = paths → s.Entered d elements n →
      SpacesEntered d index elements base s₀ toCome s →
      Ensures (climb d index elements n paths) s fun _ t =>
        SpacesEntered d index elements base s₀ toCome t := by
  induction paths with
  | nil =>
    intro s n _ _ _ _ _ hin
    rw [climb, ensures_bind, ensures_get, ensures_bind, ensures_debug, ensures_pure]
    exact hin.congr rfl rfl rfl fun _ => ⟨rfl, Or.inl rfl⟩
  | cons above rest ih =>
    intro s n h hn hfree hpaths hentered hin
    obtain ⟨hup, hrest⟩ := Path.lineage_eq_cons hpaths
    rw [climb, ensures_bind, ensures_lookUp]
    rcases h.registry.lookUp_cases above with ⟨m, hm, -, hfound⟩ | ⟨hnew, hmissing⟩
    · refine ⟨some m, hfound, ?_⟩
      rw [ensures_bind, ensures_change, ensures_pure]
      exact hin.link hn hm hentered _
    · refine ⟨none, hmissing, ?_⟩
      rw [ensures_bind, ensures_createSpace, ensures_bind, ensures_enterSpace, ensures_bind,
        ensures_change]
      show Ensures _ (s.withAbove d index elements above n) _
      obtain ⟨hgrow, hmade, hpath, halone, -⟩ :=
        SpacesGrow.withAbove hne h hn hfree hup hnew rfl
      have hm : (⟨s.nodes.size⟩ : NodeId) ∈
          (s.withAbove d index elements above n).madeSince base := by
        rw [hmade]
        exact List.mem_append_right _ List.mem_cons_self
      rw [← hpath] at hrest
      obtain ⟨hin_u, hentered_u⟩ := hin.withAbove h hne.symm hn hentered hnew rfl
      exact ih _ ⟨s.nodes.size⟩ hgrow.forest hm halone hrest hentered_u hin_u

/-- Linking a namespace takes it off those that are to come. -/
theorem linkSpace_entered (hne : elements ≠ index) {toCome : NodeId → Prop} {n : NodeId}
    (h : SpaceForest d index base s) (hn : n ∈ s.madeSince base) (hfree : (s.node n).parent = none)
    (hin : SpacesEntered d index elements base s₀ toCome s) :
    Ensures (linkSpace d index elements n) s fun _ t =>
      SpacesEntered d index elements base s₀ (fun m => toCome m ∧ m ≠ n) t := by
  rw [linkSpace, ensures_bind, ensures_enterSpace, ensures_bind, ensures_get]
  have hforest := (SpacesGrow.enter h hne n).forest
  have hlineage : Path.lineage (s.node n).path = (s.node n).lineage := (h.formed n hn).lineage_eq.symm
  obtain ⟨hentered, hself⟩ := hin.enter h hne.symm hn
  exact climb_entered hne _ _ n hforest hn hfree hlineage hself hentered

/-- **A run of linking** enters every namespace that it is given, and all that it makes. -/
theorem linkSpaces_entered (hne : elements ≠ index) (ns : List NodeId) :
    ∀ s : Store, SpaceForest d index base s → (∀ n ∈ ns, n ∈ s.madeSince base) →
      SpacesEntered d index elements base s₀ (· ∈ ns) s →
      Ensures (linkSpaces d index elements ns) s fun _ t =>
        SpacesEntered d index elements base s₀ (fun _ => False) t := by
  induction ns with
  | nil =>
    intro s _ _ hin
    rw [linkSpaces, ensures_pure]
    exact hin.come fun n _ hn => absurd hn List.not_mem_nil
  | cons n rest ih =>
    intro s h hns hin
    have hn : n ∈ s.madeSince base := hns n List.mem_cons_self
    have hrest : ∀ x ∈ rest, x ∈ s.madeSince base := fun x hx => hns x (List.mem_cons_of_mem _ hx)
    rw [linkSpaces, ensures_bind, ensures_get]
    dsimp only
    split
    · rename_i hskip
      -- The root is entered from the start, and whoever has a parent was entered before it got it.
      have hentered : s.Entered d elements n := by
        rcases Bool.or_eq_true_iff.1 hskip with hroot | hsome
        · have hpath : (s.node n).path = (s.node ⟨base⟩).path := by
            rw [h.root_path]
            exact eq_of_beq hroot
          rw [h.registry.eq_of_path hn h.root_made hpath]
          exact hin.root
        · exact hin.of_parent hn hsome
      refine ih s h hrest (hin.come fun x _ hx => ?_)
      rcases List.mem_cons.1 hx with rfl | hx
      · exact Or.inl hentered
      · exact Or.inr hx
    · rename_i hgo
      have hfree : (s.node n).parent = none := by
        rw [Bool.or_eq_true_iff, not_or] at hgo
        exact Option.not_isSome_iff_eq_none.1 hgo.2
      rw [ensures_bind]
      refine ((linkSpace_ensures hne h hn hfree).and (linkSpace_entered hne h hn hfree hin)).mono ?_
      rintro _ t ⟨ht, hin_t⟩
      rw [ensures_bind]
      refine (ih t ht.grow.forest (fun x hx => ht.grow.made x (hrest x hx)) (hin_t.come ?_)).mono ?_
      · intro x _ hx
        exact Or.inr ((List.mem_cons.1 hx.1).resolve_left hx.2)
      · intro _ u hu
        rw [ensures_pure]
        exact hu

end Steps

/-! ## The whole build -/

section Whole

variable {d : SetId} {s t : Store}

/-- A fresh root leaves what the index of elements holds. -/
theorem index_freshSpaces (s : Store) (d : SetId) :
    (s.freshSpaces d).index d elementsIndex = s.index d elementsIndex := by
  have hother : Tree.spaces.indexName ≠ elementsIndex := by decide
  have hroot : ∀ code : CodeBase → CodeBase, (((s.addNode .spaceRoot).1.updateCode d code).index?
      d elementsIndex) = s.index? d elementsIndex := by
    intro code
    rw [Store.updateCode, Store.index?, Store.docSet_updateSet]
    rfl
  rw [Store.freshSpaces, Store.index_setIndex, if_neg hother, Store.openIndex, hroot]
  cases hindex : s.index? d elementsIndex with
  | some index =>
    dsimp only
    rw [Store.index, hroot, hindex, Store.index, hindex]
  | none =>
    dsimp only
    rw [Store.index_setIndex, if_pos rfl, Store.index, hindex]
    rfl

/-- At the start the root is entered, and nothing else is there. -/
theorem SpacesEntered.rooted (s : Store) (d : SetId) :
    SpacesEntered d Tree.spaces.indexName elementsIndex s.nodes.size s (fun _ => True)
      (s.rootedSpaces d) := by
  have hnode : (s.rootedSpaces d).node ⟨s.nodes.size⟩ = .spaceRoot := by
    rw [Store.rootedSpaces, Store.node_putEntry, node_freshSpaces, if_pos rfl]
  have helements : (s.rootedSpaces d).index d elementsIndex =
      (s.index d elementsIndex).put Node.spaceRoot.indexKey (.node ⟨s.nodes.size⟩) := by
    rw [Store.rootedSpaces, Store.index_putEntry, if_pos rfl, index_freshSpaces]
  have hroot : (s.rootedSpaces d).Entered d elementsIndex ⟨s.nodes.size⟩ := by
    rw [Store.Entered, hnode, helements]
    exact Ledger.get?_put_self _ _ _
  refine ⟨hroot, fun n hn => ?_, fun p hp => ?_, ?_⟩
  · have hsize : (s.rootedSpaces d).nodes.size = s.nodes.size + 1 := by
      rw [nodes_rootedSpaces]
      exact Store.size_addNode s .spaceRoot
    rw [Store.madeSince_of_size_succ hsize, List.mem_singleton] at hn
    rw [hn]
    exact Or.inl hroot
  · have hkey : Node.spaceRoot.indexKey ≠ "~" ++ p := by
      intro hkey
      refine hp ?_
      rw [← marked_inj.1 hkey]
      exact (SpacesBound.rooted s d).forest.root_mem
    rw [helements, Ledger.get?_put_of_ne hkey]
  · rw [helements, Index.unmarked_put]

/-- **What the namespaces leave in the index of elements**: each stands under its key, a marked key that
    belongs to none is as it was, and so are all other entries, in their order. -/
theorem buildSpaces_entered (hcode : s.DescribesCode d) (hkinds : s.FiledByKind d) :
    Ensures (buildSpaces d) s fun _ t =>
      (∀ p, (t.index d elementsIndex).get? ("~" ++ p) =
        if p ∈ (t.index d Tree.spaces.indexName).keys then (t.index d Tree.spaces.indexName).get? p
        else (s.index d elementsIndex).get? ("~" ++ p)) ∧
      Index.unmarked (t.index d elementsIndex) = Index.unmarked (s.index d elementsIndex) := by
  have hne : elementsIndex ≠ Tree.spaces.indexName := by decide
  have hkinds_fresh : ∀ e ∈ s.declared d Tree.spaces.kinds,
      ((s.freshSpaces d).element e).kind ∈ Tree.spaces.kinds := by
    intro e he
    rw [(sameInput_freshSpaces s d).kind]
    exact hkinds.kind_of_mem_declared he
  have hbuilt := buildSpaces_ensures hcode hkinds
  refine (hbuilt.and ((ensures_buildSpaces (Q := fun _ t =>
    SpacesEntered d Tree.spaces.indexName elementsIndex s.nodes.size s (fun _ => False) t) hcode).2
      ?_)).mono ?_
  · refine (bindSpaces_entered hne.symm (SpacesBound.rooted s d) hkinds_fresh
      (SpacesEntered.rooted s d)).mono ?_
    rintro _ t ⟨ht, hin⟩
    rw [ht.forest.registry.nodes_eq]
    refine (linkSpaces_entered hne _ t ht.forest (fun _ hn => hn)
      (hin.come fun n hn _ => Or.inr hn)).mono fun apart u hu => ?_
    exact hu.congr rfl rfl rfl fun _ => ⟨rfl, Or.inl rfl⟩
  · rintro _ t ⟨ht, hin⟩
    refine ⟨fun p => ?_, hin.others⟩
    split
    · rename_i hp
      obtain ⟨n, hn, rfl⟩ := ht.forest.registry.mem_keys.1 hp
      rw [ht.forest.registry.get?_path hn]
      rcases hin.left n hn with hentered | ⟨-, hcome⟩
      · exact hentered
      · exact absurd hcome id
    · rename_i hp
      exact hin.marked p hp

end Whole

end Docset
