/-
  Who is filed where.

  Both trees take elements one after another, bind each to a node and file it there.  Which node that is
  hangs on a KEY of the element alone: the namespace that it names, or the place of the package that it
  names.  A node has a key too, read off its path, and no two nodes made in a build share one.

  `Filed` is the invariant of such a run.  At every moment each node holds exactly the elements with its
  key among those that are DONE, in the order in which they came (`Filed.filed`), and each of these is
  bound to it (`Filed.bound`).  An element that comes twice has the same key both times, so it is listed
  twice at one node, and is bound to that node.  Two changes occur in a run, and each keeps the invariant:

  * `Filed.grow` — nodes are made and linked: a new node has a new key, so nobody who is done belongs there;
  * `Filed.bind` — the next element is bound to the node with its key, and filed there.
-/
import Mathlib.Data.List.Basic
import Docset.Proofs.Filing
import Docset.Proofs.Registry

namespace Docset

/-! ## Bindings -/

/-- The node of a tree that an element is bound to. -/
def Element.boundTo (e : Element) : Tree → Option NodeId
  | .spaces =>
    match e.space with
    | .node n => some n
    | .path _ => none
  | .packages =>
    match e.package with
    | .node n => some n
    | _ => none

/-- The element bound to a node of a tree. -/
def Element.bindTo (tree : Tree) (n : NodeId) (e : Element) : Element :=
  match tree with
  | .spaces => { e with space := .node n }
  | .packages => { e with package := .node n }

/-- The element but for its binding to a tree. -/
def Element.unbound (tree : Tree) (e : Element) : Element :=
  match tree with
  | .spaces => { e with space := .path "" }
  | .packages => { e with package := .unset }

/-- The binding to the other tree stays. -/
theorem Element.boundTo_bindTo (tree : Tree) (n : NodeId) (e : Element) (other : Tree) :
    (e.bindTo tree n).boundTo other = if other = tree then some n else e.boundTo other := by
  cases tree <;> cases other <;> rfl

theorem Element.unbound_bindTo (tree : Tree) (n : NodeId) (e : Element) :
    (e.bindTo tree n).unbound tree = e.unbound tree := by
  cases tree <;> rfl

theorem Element.fixed_bindTo (tree : Tree) (n : NodeId) (e : Element) :
    (e.bindTo tree n).fixed = e.fixed := by
  cases tree <;> rfl

theorem Element.space_of_boundTo {e : Element} {n : NodeId} (h : e.boundTo .spaces = some n) :
    e.space = .node n := by
  rw [boundTo] at h
  cases hspace : e.space with
  | path text => rw [hspace] at h; cases h
  | node m =>
    rw [hspace] at h
    cases h
    rfl

/-! ## Listings -/

/-- The roster of a list of elements, each under its kind. -/
def Store.listing (s : Store) (es : List ElementId) : Roster := ⟨es.map fun e => ((s.element e).kind, e)⟩

theorem Store.listing_concat (s : Store) (es : List ElementId) (e : ElementId) :
    s.listing (es ++ [e]) = (s.listing es).add (s.element e).kind e := by
  simp [Store.listing, Roster.add]

/-- Of a listing, a kind has the elements of that kind, in order. -/
theorem Store.ofKind_listing (s : Store) (es : List ElementId) (kind : Kind) :
    (s.listing es).ofKind kind = es.filter fun e => (s.element e).kind = kind := by
  induction es with
  | nil => rfl
  | cons e es ih =>
    have htail : Roster.ofKind ⟨es.map fun e => ((s.element e).kind, e)⟩ kind =
        es.filter fun e => (s.element e).kind = kind := ih
    by_cases hkind : (s.element e).kind = kind
    · simp [Store.listing, Roster.ofKind, hkind] at htail ⊢
      exact htail
    · simp [Store.listing, Roster.ofKind, hkind] at htail ⊢
      exact htail

/-! ## The invariant -/

/-- The elements in `done` are bound to the nodes with their keys and filed there, in order, and nothing
    else is; beyond that neither elements nor the nodes of before the build have changed since `s₀`. -/
structure Filed {κ : Type} [DecidableEq κ] (tree : Tree) (base : Nat) (s₀ : Store)
    (key : ElementId → κ) (spot : String → κ) (done : List ElementId) (t : Store) : Prop where
  bound : ∀ e ∈ done, ∃ n ∈ t.madeSince base,
    (t.element e).boundTo tree = some n ∧ spot (t.node n).path = key e
  filed : ∀ n ∈ t.madeSince base,
    (t.node n).members = s₀.listing (done.filter fun e => key e = spot (t.node n).path)
  free : ∀ e, e ∉ done → t.element e = s₀.element e
  same : ∀ e, (t.element e).unbound tree = (s₀.element e).unbound tree
  old : ∀ n : NodeId, n.row < base → t.node n = s₀.node n

namespace Filed

variable {κ : Type} [DecidableEq κ] {tree : Tree} {d : SetId} {base : Nat} {s₀ s t : Store}
  {key : ElementId → κ} {spot : String → κ} {done : List ElementId} {e : ElementId} {n : NodeId}

theorem kind_eq (h : Filed tree base s₀ key spot done s) (e : ElementId) :
    (s.element e).kind = (s₀.element e).kind := by
  have hsame := congrArg Element.kind (h.same e)
  cases tree with
  | spaces => exact hsame
  | packages => exact hsame

/-- Before the first element, nothing is filed. -/
theorem start (helements : t.elements = s₀.elements)
    (hmembers : ∀ n ∈ t.madeSince base, (t.node n).members = .empty)
    (hold : ∀ n : NodeId, n.row < base → t.node n = s₀.node n) :
    Filed tree base s₀ key spot [] t := by
  have helement : ∀ e, t.element e = s₀.element e := by
    intro e
    rw [Store.element, Store.element, helements]
  refine ⟨?_, hmembers, fun e _ => helement e, ?_, hold⟩
  · intro e he
    cases he
  · intro e
    rw [helement]

/-- Growth keeps who is filed where, if keys tell nodes apart: what was made meanwhile has a new key. -/
theorem grow (h : Filed tree base s₀ key spot done s) (hgrow : Store.Extends d base s t)
    (hspot : ∀ n ∈ t.madeSince base, ∀ m ∈ t.madeSince base,
      spot (t.node n).path = spot (t.node m).path → n = m) :
    Filed tree base s₀ key spot done t := by
  have helement : ∀ e, t.element e = s.element e := by
    intro e
    rw [Store.element, Store.element, hgrow.elements]
  refine ⟨?_, ?_, ?_, ?_, ?_⟩
  · intro e he
    obtain ⟨n, hn, hbound, hkey⟩ := h.bound e he
    refine ⟨n, hgrow.made n hn, ?_, ?_⟩
    · rw [helement]
      exact hbound
    · rw [hgrow.path n hn]
      exact hkey
  · intro n hn
    rw [hgrow.members n]
    by_cases hold : n ∈ s.madeSince base
    · rw [h.filed n hold, hgrow.path n hold]
    · -- Nothing is filed at a new node, and who is done belongs to a node that was there.
      have hblank : (s.node n).members = .empty := by
        have hrow := Store.mem_madeSince.1 hn
        have hsize : s.nodes.size ≤ n.row := by
          have hnot : ¬ (base ≤ n.row ∧ n.row < s.nodes.size) := fun hrows =>
            hold (Store.mem_madeSince.2 hrows)
          omega
        rw [Store.node_of_size_le hsize]
        rfl
      have hnobody : (done.filter fun e => key e = spot (t.node n).path) = [] := by
        rw [List.filter_eq_nil_iff]
        intro e he hkey
        obtain ⟨m, hm, -, hkey_m⟩ := h.bound e he
        have hnm : n = m := by
          refine hspot n hn m (hgrow.made m hm) ?_
          rw [hgrow.path m hm, hkey_m]
          exact (of_decide_eq_true hkey).symm
        exact hold (hnm ▸ hm)
      rw [hblank, hnobody]
      rfl
  · intro e he
    rw [helement]
    exact h.free e he
  · intro e
    rw [helement]
    exact h.same e
  · intro n hn
    rw [hgrow.old n hn]
    exact h.old n hn

/-- Binding the next element to the node with its key, and filing it there, takes the run one element
    further. -/
theorem bind (h : Filed tree base s₀ key spot done s) (hn : n ∈ s.madeSince base)
    (hkey : spot (s.node n).path = key e)
    (hspot : ∀ m ∈ s.madeSince base, spot (s.node m).path = spot (s.node n).path → m = n) :
    Filed tree base s₀ key spot (done ++ [e]) (s.bindAt e n (Element.bindTo tree n)) := by
  have hrow := Store.mem_madeSince.1 hn
  have hmade : (s.bindAt e n (Element.bindTo tree n)).madeSince base = s.madeSince base :=
    Store.madeSince_eq_of_size (size_bindAt hrow.2) base
  have hpath : ∀ m, ((s.bindAt e n (Element.bindTo tree n)).node m).path = (s.node m).path :=
    (sameNodes_bindAt s e n _).path
  refine ⟨?_, ?_, ?_, ?_, ?_⟩
  · intro x hx
    rw [element_bindAt, hmade]
    by_cases hxe : x = e
    · rw [if_pos hxe]
      refine ⟨n, hn, (Element.boundTo_bindTo tree n _ tree).trans (if_pos rfl), ?_⟩
      rw [hpath, hkey, hxe]
    · rw [if_neg hxe]
      have hx : x ∈ done := by
        rcases List.mem_append.1 hx with hx | hx
        · exact hx
        · exact absurd (List.mem_singleton.1 hx) hxe
      obtain ⟨m, hm, hbound, hkey_m⟩ := h.bound x hx
      refine ⟨m, hm, hbound, ?_⟩
      rw [hpath]
      exact hkey_m
  · intro m hm
    rw [hmade] at hm
    rw [hpath, members_bindAt, h.filed m hm, List.filter_append, h.kind_eq]
    by_cases hmn : m = n
    · have hhere : [e].filter (fun e => key e = spot (s.node m).path) = [e] := by
        simp [hmn, hkey]
      rw [if_pos hmn, hhere, Store.listing_concat]
    · have hne : key e ≠ spot (s.node m).path := by
        intro hkey_m
        exact hmn (hspot m hm (hkey_m.symm.trans hkey.symm))
      have helsewhere : [e].filter (fun e => key e = spot (s.node m).path) = [] := by
        simp [hne]
      rw [if_neg hmn, helsewhere, List.append_nil]
  · intro x hx
    rw [List.mem_append, List.mem_singleton, not_or] at hx
    rw [element_bindAt, if_neg hx.2]
    exact h.free x hx.1
  · intro x
    rw [element_bindAt]
    split
    · rw [Element.unbound_bindTo]
      exact h.same x
    · exact h.same x
  · intro m hm
    have hmn : m ≠ n := by
      rintro rfl
      omega
    rw [Store.bindAt, Store.node_updateNode, if_neg hmn]
    exact h.old m hm

/-- What a node holds of a kind: the elements of that kind, in order, that have the node's key. -/
theorem collection (h : Filed tree base s₀ key spot done t) (hn : n ∈ t.madeSince base)
    (htree : (t.node n).tree = tree) {kind : Kind} (hkind : kind ∈ tree.kinds) :
    (t.node n).collection kind = .ok ((done.filter fun e => (s₀.element e).kind = kind).filter
      fun e => key e = spot (t.node n).path) := by
  have hheld : kind ∈ (t.node n).tree.kinds := htree ▸ hkind
  rw [Node.collection, if_pos hheld, h.filed n hn, Store.ofKind_listing, List.filter_filter,
    List.filter_filter]
  exact congrArg Except.ok (List.filter_congr fun e _ => Bool.and_comm _ _)

end Filed

/-! ## The elements of one kind -/

/-- Of what is listed kind by kind, one kind is what was listed for it. -/
theorem filter_flatMap_kinds {α κ : Type} [DecidableEq κ] {kinds : List κ} {list : κ → List α}
    {kindOf : α → κ} (hkinds : kinds.Nodup) (hlist : ∀ k ∈ kinds, ∀ a ∈ list k, kindOf a = k) {kind : κ}
    (hkind : kind ∈ kinds) : (kinds.flatMap list).filter (fun a => kindOf a = kind) = list kind := by
  induction kinds with
  | nil => cases hkind
  | cons k kinds ih =>
    rw [List.nodup_cons] at hkinds
    rw [List.flatMap_cons, List.filter_append]
    have hfirst : ∀ a ∈ list k, kindOf a = k := hlist k List.mem_cons_self
    have hrest : ∀ k' ∈ kinds, ∀ a ∈ list k', kindOf a = k' := fun k' hk' =>
      hlist k' (List.mem_cons_of_mem _ hk')
    by_cases hk : kind = k
    · subst hk
      have hall : (list kind).filter (fun a => kindOf a = kind) = list kind := by
        rw [List.filter_eq_self]
        intro a ha
        exact decide_eq_true (hfirst a ha)
      have hnone : (kinds.flatMap list).filter (fun a => kindOf a = kind) = [] := by
        rw [List.filter_eq_nil_iff]
        intro a ha hkind_a
        obtain ⟨k', hk', ha⟩ := List.mem_flatMap.1 ha
        rw [decide_eq_true_eq, hrest k' hk' a ha] at hkind_a
        exact hkinds.1 (hkind_a ▸ hk')
      rw [hall, hnone, List.append_nil]
    · have hnone : (list k).filter (fun a => kindOf a = kind) = [] := by
        rw [List.filter_eq_nil_iff]
        intro a ha hkind_a
        rw [decide_eq_true_eq, hfirst a ha] at hkind_a
        exact hk hkind_a.symm
      rw [hnone, List.nil_append]
      exact ih hkinds.2 hrest ((List.mem_cons.1 hkind).resolve_left hk)

namespace Store

variable {s : Store} {d : SetId} {kind : Kind}

/-- Of what files declare, a kind is what they declare under it, file by file. -/
theorem filter_declared (hs : s.FiledByKind d) (hkind : kind ∈ Tree.spaces.kinds) :
    (s.declared d Tree.spaces.kinds).filter (fun e => (s.element e).kind = kind) =
      (s.files d).values.flatMap (s.membersOf · kind) := by
  rw [declared, List.filter_flatMap]
  refine List.flatMap_congr fun file hfile => ?_
  exact filter_flatMap_kinds (by decide) (hs file hfile) hkind

/-- Of what belongs to packages, the kind of files is the files. -/
theorem filter_packaged_file (hs : s.FiledByKind d) (hfiles : s.FilesAreFiles d) :
    (s.packaged d).filter (fun e => (s.element e).kind = .file) = (s.files d).values := by
  have hspaces : ∀ kind ∈ packagedKinds, kind ∈ Tree.spaces.kinds := by decide
  have hfile : ∀ file ∈ (s.files d).values,
      (file :: s.declaredIn packagedKinds file).filter (fun e => (s.element e).kind = .file) =
        [file] := by
    intro file hfile
    have hdeclared : (s.declaredIn packagedKinds file).filter
        (fun e => (s.element e).kind = .file) = [] := by
      rw [List.filter_eq_nil_iff]
      intro e he hkind
      have hmem := hs.kind_of_mem_declaredIn hfile hspaces he
      rw [of_decide_eq_true hkind] at hmem
      exact absurd hmem (by decide)
    simp [hfiles file hfile, hdeclared]
  rw [packaged, List.filter_flatMap, List.flatMap_congr hfile]
  exact List.flatMap_singleton' _

/-- Of what belongs to packages, any other kind is what files declare under it, file by file. -/
theorem filter_packaged (hs : s.FiledByKind d) (hfiles : s.FilesAreFiles d)
    (hkind : kind ∈ packagedKinds) :
    (s.packaged d).filter (fun e => (s.element e).kind = kind) =
      (s.files d).values.flatMap (s.membersOf · kind) := by
  have hspaces : ∀ kind ∈ packagedKinds, kind ∈ Tree.spaces.kinds := by decide
  rw [packaged, List.filter_flatMap]
  refine List.flatMap_congr fun file hfile => ?_
  have hother : (s.element file).kind ≠ kind := by
    rintro rfl
    rw [hfiles file hfile] at hkind
    exact absurd hkind (by decide)
  rw [List.filter_cons_of_neg (by simpa using hother)]
  exact filter_flatMap_kinds (by decide) (fun k hk => hs file hfile k (hspaces k hk)) hkind

end Store

end Docset
