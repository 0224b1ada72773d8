/-
  Binding that fails half-way.

  Both trees bind elements one after another, and the first failure ends the call.  What is done by then
  stays done.  There are two reasons to fail, at two moments of a step: an entry of the index is of the wrong
  sort, which is found out before anything is written; and the node does not hold the element's kind, which
  is found out when the element is bound already.

  1. How a step ends, well or not, is told by `Build.Ends` and its rules, one for each way in which steps
     are made.
  2. Finding or making the node of an element changes no element and takes nothing off a node, and where it
     fails it has changed nothing at all (`bindSpace_ends`, `bindPackage_ends`).
  3. So one step leaves all other elements as they were, and whoever is bound and listed stays so
     (`Store.Listed.keep`).  From this the loop has its invariant (`Store.Committed`).

  **The theorem** (`Tree.bindAll_ends`): the elements before the one that fails are bound and listed, and
  those after it are as they were.  The one that fails is as it was too if an entry was of the wrong sort.
  If the node does not hold its kind, it stays bound to a node that does not list it.
-/
import Docset.Proofs.Members

namespace Docset

open Build

/-! ## What a step keeps -/

/-- Elements are as they were, and nodes that were there have their roles and what is filed at them. -/
structure Store.Keeps (s t : Store) : Prop where
  elements : t.elements = s.elements
  size_le : s.nodes.size ≤ t.nodes.size
  filed : ∀ n : NodeId, n.row < s.nodes.size →
    (t.node n).role = (s.node n).role ∧ (t.node n).members = (s.node n).members

namespace Store.Keeps

variable {s t u : Store}

theorem refl (s : Store) : s.Keeps s := ⟨rfl, Nat.le_refl _, fun _ _ => ⟨rfl, rfl⟩⟩

theorem trans (hst : s.Keeps t) (htu : t.Keeps u) : s.Keeps u := by
  refine ⟨htu.elements.trans hst.elements, Nat.le_trans hst.size_le htu.size_le, fun n hn => ?_⟩
  have hrow := Nat.lt_of_lt_of_le hn hst.size_le
  exact ⟨(htu.filed n hrow).1.trans (hst.filed n hn).1, (htu.filed n hrow).2.trans (hst.filed n hn).2⟩

theorem addNode (s : Store) (x : Node) : s.Keeps (s.addNode x).1 := by
  refine ⟨rfl, ?_, fun n hn => ?_⟩
  · rw [size_addNode]
    exact Nat.le_succ _
  · have hne : n ≠ ⟨s.nodes.size⟩ := by
      rintro rfl
      exact Nat.lt_irrefl _ hn
    rw [node_addNode_of_ne hne]
    exact ⟨rfl, rfl⟩

theorem addChild (s : Store) (parent : NodeId) (key : String) (child : NodeId) :
    s.Keeps (s.addChild parent key child) := by
  refine ⟨rfl, ?_, fun n _ => ?_⟩
  · rw [Store.addChild, size_updateNode_max, size_updateNode_max]
    omega
  · rw [node_addChild]
    exact ⟨rfl, rfl⟩

theorem putEntry (s : Store) (d : SetId) (index key : String) (entry : Entry) :
    s.Keeps (s.putEntry d index key entry) :=
  ⟨rfl, Nat.le_refl _, fun _ _ => ⟨rfl, rfl⟩⟩

theorem record (s : Store) (logger : String) (level : Level) (text : String) :
    s.Keeps (s.record logger level text) :=
  ⟨rfl, Nat.le_refl _, fun _ _ => ⟨rfl, rfl⟩⟩

end Store.Keeps

/-! ## One element -/

/-- Binds an element to its node of a tree. -/
def Tree.bind (tree : Tree) (d : SetId) (index : String) (e : ElementId) : Build BindError Unit :=
  match tree with
  | .spaces => bindSpace d index e
  | .packages => bindPackage d index e

/-- Binds elements to their nodes of a tree, in order. -/
def Tree.bindAll (tree : Tree) (d : SetId) (index : String) (es : List ElementId) :
    Build BindError Unit :=
  match tree with
  | .spaces => bindSpaces d index es
  | .packages => bindPackages d index es

theorem Tree.bindAll_eq (tree : Tree) (d : SetId) (index : String) (es : List ElementId) :
    tree.bindAll d index es = forEach (tree.bind d index) es := by
  cases tree with
  | spaces => rfl
  | packages => rfl

/-- The element is bound to a node that holds its kind, and filed there. -/
def Store.Binds (s : Store) (tree : Tree) (e : ElementId) (t : Store) : Prop :=
  ∃ u n held, s.Keeps u ∧ (u.node n).collection (u.element e).kind = .ok held ∧
    t = u.bindAt e n (.bindTo tree n)

/-- The element cannot be bound: an entry is of the wrong sort, and nothing is changed; or its node does not
    hold its kind, and then it is bound to the node all the same. -/
def Store.FailsToBind (s : Store) (tree : Tree) (e : ElementId) : BindError → Store → Prop
  | .entry _, t => t = s
  | .misfit m, t => ∃ u n, s.Keeps u ∧ (u.node n).collection (u.element e).kind = .error m ∧
      t = u.updateElement e (.bindTo tree n)

section Steps

variable {d : SetId} {index : String} {e : ElementId} {s : Store}

theorem Element.kind_bindTo (tree : Tree) (n : NodeId) (e : Element) :
    (e.bindTo tree n).kind = e.kind := by
  cases tree <;> rfl

/-- The second half of a step, once the node is there. -/
theorem ends_bindAt (tree : Tree) {u : Store} (hu : s.Keeps u) (n : NodeId) :
    Ends (do change (·.updateElement e (.bindTo tree n)); fileAt n e) u
      (fun _ t => s.Binds tree e t) (s.FailsToBind tree e) := by
  have hkind : ((u.updateElement e (.bindTo tree n)).element e).kind = (u.element e).kind := by
    rw [Store.element_updateElement, if_pos rfl, Element.kind_bindTo]
  rw [ends_bind, ends_change]
  refine ends_fileAt (fun held hheld => ?_) fun m hmisfit => ?_
  · rw [hkind] at hheld ⊢
    exact ⟨u, n, held, hu, hheld, rfl⟩
  · rw [hkind] at hmisfit
    exact ⟨u, n, hu, hmisfit, rfl⟩

/-! ### Namespaces -/

/-- Binding an element to its namespace. -/
theorem bindSpace_ends : Ends (bindSpace d index e) s
    (fun _ t => s.Binds .spaces e t) (s.FailsToBind .spaces e) := by
  rw [bindSpace, ends_bind, ends_get, ends_bind, ends_mapError]
  refine ends_lookUp (fun found => ?_) fun _ => rfl
  cases found with
  | some n =>
    rw [ends_bind, ends_pure]
    exact ends_bindAt .spaces (.refl s) n
  | none =>
    dsimp only
    rw [createSpace, ends_bind, ends_bind, ends_addNode, ends_bind, ends_change, ends_pure]
    exact ends_bindAt .spaces ((Store.Keeps.addNode s _).trans (.putEntry _ d index _ _)) _

/-! ### Packages -/

/-- The step down does not fail. -/
theorem openChild_keeps {ε : Type} {E : ε → Store → Prop} (here : NodeId) (path name : String) :
    Ends (openChild d index here path name : Build ε NodeId) s (fun _ t => s.Keeps t) E := by
  rw [openChild, ends_bind, ends_get]
  cases ((s.node here).children.get? (childKey name)) with
  | some child =>
    rw [ends_pure]
    exact .refl s
  | none =>
    dsimp only
    rw [ends_bind, ends_addNode, ends_bind, ends_change, ends_bind, ends_change, ends_bind, debug,
      ends_change, ends_pure]
    have hmade := (Store.Keeps.addNode s (.single .package name path)).trans
      (.addChild _ here (childKey name) ⟨s.nodes.size⟩)
    exact (hmade.trans (.putEntry _ d index path _)).trans (.record _ _ _ _)

/-- Nor does going down. -/
theorem descend_keeps {ε : Type} {E : ε → Store → Prop} (names : List String) :
    ∀ (s : Store) (here : NodeId) (path : String),
      Ends (descend d index here path names : Build ε NodeId) s (fun _ t => s.Keeps t) E := by
  induction names with
  | nil =>
    intro s here path
    rw [descend, ends_pure]
    exact .refl s
  | cons name names ih =>
    intro s here path
    rw [descend, ends_bind]
    refine (openChild_keeps here _ name).mono (fun child t ht => ?_) fun _ _ hfail => hfail
    exact (ih t child _).mono (fun _ _ hu => ht.trans hu) fun _ _ hfail => hfail

/-- Growing the tree fails at the look-up of the root, if at all. -/
theorem growPackage_keeps (name : String) :
    Ends (growPackage d index name) s (fun _ t => s.Keeps t) fun _ t => t = s := by
  rw [growPackage, openPackageRoot, ends_bind, ends_bind]
  refine ends_lookUp (fun found => ?_) fun _ => rfl
  cases found with
  | some root =>
    dsimp only
    rw [ends_pure]
    exact descend_keeps _ s root ""
  | none =>
    dsimp only
    rw [ends_bind, ends_addNode, ends_bind, ends_change, ends_pure]
    refine (descend_keeps _ _ _ "").mono (fun _ _ hu => ?_) fun _ _ hfail => hfail
    exact ((Store.Keeps.addNode s .packageRoot).trans (.putEntry _ d index Path.root _)).trans hu

/-- Binding an element to its package. -/
theorem bindPackage_ends : Ends (bindPackage d index e) s
    (fun _ t => s.Binds .packages e t) (s.FailsToBind .packages e) := by
  rw [bindPackage, ends_bind, ends_get]
  dsimp only
  rw [ends_bind, ends_mapError, ends_bind]
  refine ends_lookUp (fun found => ?_) fun _ => rfl
  cases found with
  | some n =>
    dsimp only
    rw [ends_pure]
    exact ends_bindAt .packages (.refl s) n
  | none =>
    exact (growPackage_keeps _).mono (fun n u hu => ends_bindAt .packages hu n) fun _ _ hsame => hsame

/-- **One step of binding** in either tree. -/
theorem Tree.bind_ends (tree : Tree) : Ends (tree.bind d index e) s
    (fun _ t => s.Binds tree e t) (s.FailsToBind tree e) := by
  cases tree with
  | spaces => exact bindSpace_ends
  | packages => exact bindPackage_ends

end Steps

/-! ## Who is bound and listed -/

/-- The node lists the element under its kind. -/
def Store.FiledAt (s : Store) (n : NodeId) (e : ElementId) : Prop :=
  ∃ es, (s.node n).collection (s.element e).kind = .ok es ∧ e ∈ es

/-- The element is bound to a node of the tree that lists it. -/
def Store.Listed (s : Store) (tree : Tree) (e : ElementId) : Prop :=
  ∃ n, (s.element e).boundTo tree = some n ∧ s.FiledAt n e

section Listed

variable {s t u : Store} {tree : Tree} {e x : ElementId} {n : NodeId}

theorem Node.collection_eq_ok {n : Node} {kind : Kind} {es : List ElementId} :
    n.collection kind = .ok es ↔ kind ∈ n.tree.kinds ∧ n.members.ofKind kind = es := by
  rw [Node.collection]
  split
  · rename_i hkind
    simp [hkind]
  · rename_i hkind
    simp [hkind]

/-- A node that lists something was made. -/
theorem Store.FiledAt.row_lt (h : s.FiledAt n e) : n.row < s.nodes.size := by
  obtain ⟨es, hheld, he⟩ := h
  refine Decidable.byContradiction fun hrow => ?_
  rw [Store.node_of_size_le (by omega), Node.collection_eq_ok] at hheld
  rw [← hheld.2] at he
  cases he

/-- Who is listed stays so while nodes keep what is filed at them. -/
theorem Store.Listed.keep (h : s.Listed tree x) (hkeeps : s.Keeps u) : u.Listed tree x := by
  obtain ⟨n, hbound, hlists⟩ := h
  obtain ⟨hrole, hmembers⟩ := hkeeps.filed n hlists.row_lt
  have helement : u.element x = s.element x := by
    rw [Store.element, Store.element, hkeeps.elements]
  obtain ⟨es, hheld, hx⟩ := hlists
  refine ⟨n, by rw [helement]; exact hbound, es, ?_, hx⟩
  rw [Node.collection_eq_ok] at hheld ⊢
  rw [Node.tree, hrole, hmembers, helement]
  exact hheld

/-- The node of an element that is bound and filed lists it. -/
theorem Store.listed_bindAt {held : List ElementId}
    (hheld : (s.node n).collection (s.element e).kind = .ok held) :
    (s.bindAt e n (.bindTo tree n)).Listed tree e := by
  have hkind := (Node.collection_eq_ok.1 hheld).1
  refine ⟨n, ?_, (s.node n).members.ofKind (s.element e).kind ++ [e], ?_, ?_⟩
  · rw [element_bindAt, if_pos rfl, Element.boundTo_bindTo, if_pos rfl]
  · rw [element_bindAt, if_pos rfl, Element.kind_bindTo, Node.collection_eq_ok, members_bindAt,
      if_pos rfl, Roster.ofKind_add, if_pos rfl, Node.tree, (sameNodes_bindAt s e n _).role]
    exact ⟨hkind, rfl⟩
  · exact List.mem_append_right _ List.mem_cons_self

/-- Others that are listed stay so when an element is bound and filed. -/
theorem Store.Listed.bindAt (h : s.Listed tree x) (hx : x ≠ e) (n : NodeId) :
    (s.bindAt e n (.bindTo tree n)).Listed tree x := by
  obtain ⟨m, hbound, es, hheld, hmem⟩ := h
  obtain ⟨hkind, rfl⟩ := Node.collection_eq_ok.1 hheld
  have helement : (s.bindAt e n (.bindTo tree n)).element x = s.element x := by
    rw [element_bindAt, if_neg hx]
  refine ⟨m, by rw [helement]; exact hbound,
    ((s.bindAt e n (.bindTo tree n)).node m).members.ofKind (s.element x).kind, ?_, ?_⟩
  · rw [helement, Node.collection_eq_ok, Node.tree, (sameNodes_bindAt s e n _).role]
    exact ⟨hkind, rfl⟩
  · rw [members_bindAt]
    split
    · rw [Roster.ofKind_add]
      split
      · exact List.mem_append_left _ hmem
      · exact hmem
    · exact hmem

/-- Others that are listed stay so when an element is bound but not filed. -/
theorem Store.Listed.bindTo (h : s.Listed tree x) (hx : x ≠ e) (n : NodeId) :
    (s.updateElement e (.bindTo tree n)).Listed tree x := by
  have helement : (s.updateElement e (.bindTo tree n)).element x = s.element x := by
    rw [Store.element_updateElement, if_neg hx]
  obtain ⟨m, hbound, es, hheld, hmem⟩ := h
  refine ⟨m, by rw [helement]; exact hbound, es, ?_, hmem⟩
  rw [helement]
  exact hheld

end Listed

/-! ## A run -/

/-- The elements in `done` are bound and listed, and all others are as they were. -/
structure Store.Committed (s : Store) (tree : Tree) (done : List ElementId) (t : Store) : Prop where
  listed : ∀ x ∈ done, t.Listed tree x
  same : ∀ x, x ∉ done → t.element x = s.element x

namespace Store.Committed

variable {s t u : Store} {tree : Tree} {done : List ElementId} {e : ElementId}

/-- Who is not at hand keeps its element. -/
theorem element_eq (hkeeps : t.Keeps u) (bind : Element → Element) {x : ElementId} (hx : x ≠ e) :
    (u.updateElement e bind).element x = t.element x := by
  rw [Store.element_updateElement, if_neg hx, Store.element, Store.element, hkeeps.elements]

/-- A step that ends well commits one more element. -/
theorem binds (h : s.Committed tree done t) (hstep : t.Binds tree e u) :
    s.Committed tree (done ++ [e]) u := by
  obtain ⟨v, n, held, hkeeps, hheld, rfl⟩ := hstep
  refine ⟨fun x hx => ?_, fun x hx => ?_⟩
  · by_cases hxe : x = e
    · rw [hxe]
      exact Store.listed_bindAt hheld
    · rw [List.mem_append, List.mem_singleton] at hx
      exact ((h.listed x (hx.resolve_right hxe)).keep hkeeps).bindAt hxe n
  · rw [List.mem_append, List.mem_singleton, not_or] at hx
    exact (element_eq hkeeps _ hx.2).trans (h.same x hx.1)

/-- A step that fails leaves the others alone. -/
theorem fails (h : s.Committed tree done t) {cause : BindError} (hstep : t.FailsToBind tree e cause u) :
    (∀ x ∈ done, x ≠ e → u.Listed tree x) ∧ ∀ x, x ∉ done → x ≠ e → u.element x = s.element x := by
  cases cause with
  | entry mismatch =>
    cases hstep
    exact ⟨fun x hx _ => h.listed x hx, fun x hx _ => h.same x hx⟩
  | misfit m =>
    obtain ⟨v, n, hkeeps, -, rfl⟩ := hstep
    exact ⟨fun x hx hxe => ((h.listed x hx).keep hkeeps).bindTo hxe n,
      fun x hx hxe => (element_eq hkeeps _ hxe).trans (h.same x hx)⟩

end Store.Committed

/-- **How binding a list of elements ends.**  If it ends well, all are bound and listed.  If it fails, it
    fails at one of them.  Those before are bound and listed, and all others are as they were.  The one that
    failed is as it was if an entry was of the wrong sort; but if it was of a kind that its node does not
    hold, it is bound to the node. -/
theorem Tree.bindAll_ends (tree : Tree) (d : SetId) (index : String) (es : List ElementId) (s : Store) :
    Ends (tree.bindAll d index es) s
      (fun _ t => ∀ x ∈ es, t.Listed tree x)
      fun cause t => ∃ done e rest u, es = done ++ e :: rest ∧
        tree.bindAll d index done s = .ok () u ∧ tree.bind d index e u = .error cause t ∧
        (∀ x ∈ done, x ≠ e → t.Listed tree x) ∧
        (∀ x, x ∉ done → x ≠ e → t.element x = s.element x) ∧
        match cause with
        | .entry _ => (e ∈ done → t.Listed tree e) ∧ (e ∉ done → t.element e = s.element e)
        | .misfit m => ∃ n, (t.element e).boundTo tree = some n ∧
            (t.node n).collection (t.element e).kind = .error m := by
  rw [tree.bindAll_eq]
  refine (ends_forEach (fun done t => forEach (tree.bind d index) done s = .ok () t ∧
    s.Committed tree done t) ⟨rfl, by simp, fun _ _ => rfl⟩ ?_).mono (fun _ t ht => ht.2.listed)
    fun _ _ hfail => hfail
  rintro done e rest t rfl ⟨hdone, ht⟩
  refine (tree.bind_ends.and_run).mono ?_ ?_
  · rintro ⟨⟩ u ⟨hrun, hstep⟩
    exact ⟨forEach_concat hdone hrun, ht.binds hstep⟩
  · rintro cause u ⟨hrun, hstep⟩
    obtain ⟨hlisted, hsame⟩ := ht.fails hstep
    refine ⟨done, e, rest, t, rfl, by rw [tree.bindAll_eq]; exact hdone, hrun, hlisted, hsame, ?_⟩
    cases cause with
    | entry mismatch =>
      cases hstep
      exact ⟨ht.listed e, ht.same e⟩
    | misfit m =>
      obtain ⟨v, n, hkeeps, hmisfit, rfl⟩ := hstep
      refine ⟨n, ?_, ?_⟩
      · rw [Store.element_updateElement, if_pos rfl, Element.boundTo_bindTo, if_pos rfl]
      · rw [Store.element_updateElement, if_pos rfl, Element.kind_bindTo]
        exact hmisfit

/-- A class, a method and a class: the method stays bound to the root, which does not hold methods, and the
    class after it is not bound. -/
example :
    Ends (Tree.spaces.bindAll ⟨0⟩ Tree.spaces.indexName [⟨1⟩, ⟨2⟩, ⟨3⟩])
      (Store.ofDeclared [.declare .classType "\\X" "" (.path "") .unset,
        .declare .method "\\X::f()" "" (.path "") .unset, .declare .classType "\\Y" "" (.path "") .unset])
      (fun _ _ => False) fun cause t => cause = .misfit ⟨.spaces, .method⟩ ∧
        (t.element ⟨1⟩).boundTo .spaces = some ⟨2⟩ ∧ (t.element ⟨2⟩).boundTo .spaces = some ⟨2⟩ ∧
        (t.node ⟨2⟩).members.ofKind .classType = [⟨1⟩] ∧ (t.element ⟨3⟩).boundTo .spaces = none := by
  decide +kernel

end Docset
