/-
  Linking namespaces into a tree.

  Linking goes through the namespaces that are registered when it starts, and for each it goes UP until
  it meets a registered one, making what is missing on the way.  So the list it runs over is a snapshot,
  and the index grows meanwhile.  Two facts make the result independent of where the climbs stop:

  1. whatever is made lies above something that was registered (`SpacesGrow.key`), and
  2. whatever is made is linked by the climb that made it (`SpacesLinked.settled`).

  From (2), once all of the snapshot is done, EVERY registered namespace either has a parent or has no
  path above it: nothing is left out, also where a climb stopped early at a known namespace.
-/
import Docset.Proofs.Namespace.Binding

namespace Docset

open Build

/-! ## The paths that are needed -/

/-- The least set of paths that holds the root and the given paths, and with every path the one above
    it. -/
inductive Path.Closure (given : String → Prop) : String → Prop
  | root : Path.Closure given Path.root
  | given {p : String} : given p → Path.Closure given p
  | above {p q : String} : Path.Closure given p → Path.parentKey p = .ok q → Path.Closure given q

/-- A closure is closed: what is in the closure of needed paths is needed. -/
theorem Path.Closure.of_given {P Q : String → Prop} (hPQ : ∀ p, P p → Path.Closure Q p) {p : String}
    (hp : Path.Closure P p) : Path.Closure Q p := by
  induction hp with
  | root => exact .root
  | given hp => exact hPQ _ hp
  | above _ hup ih => exact ih.above hup

/-! ## Growing -/

/-- The forest of `t` has all that the forest of `s` has, with the parents it has there, and beyond that
    only namespaces that lie above some in `s`. -/
structure SpacesGrow (d : SetId) (index : String) (base : Nat) (s t : Store) : Prop
    extends Store.Extends d base s t where
  forest : SpaceForest d index base t
  parent : ∀ n ∈ s.madeSince base, ∀ m, (s.node n).parent = some m → (t.node n).parent = some m
  key : ∀ p ∈ (t.index d index).keys, Path.Closure (· ∈ (s.index d index).keys) p

namespace SpacesGrow

variable {d : SetId} {index : String} {base : Nat} {s t u : Store}

theorem refl (h : SpaceForest d index base s) : SpacesGrow d index base s s where
  toExtends := .refl d base s
  forest := h
  parent := fun _ _ _ hm => hm
  key := fun _ hp => .given hp

theorem trans (hst : SpacesGrow d index base s t) (htu : SpacesGrow d index base t u) :
    SpacesGrow d index base s u where
  toExtends := hst.toExtends.trans htu.toExtends
  forest := htu.forest
  parent := fun n hn m hm => htu.parent n (hst.made n hn) m (hst.parent n hn m hm)
  key := fun p hp => (htu.key p hp).of_given hst.key

/-- No key is lost. -/
theorem mem_keys (h : SpacesGrow d index base s t) (hs : SpaceForest d index base s) {p : String}
    (hp : p ∈ (s.index d index).keys) : p ∈ (t.index d index).keys := by
  obtain ⟨n, hn, rfl⟩ := hs.registry.mem_keys.1 hp
  exact h.forest.registry.mem_keys.2 ⟨n, h.made n hn, h.path n hn⟩

/-- What is settled stays settled. -/
theorem settled (h : SpacesGrow d index base s t) {n : NodeId} (hn : n ∈ s.madeSince base)
    (hsettled : s.Settled n) : t.Settled n := by
  rcases hsettled with hsome | hnone
  · obtain ⟨m, hm⟩ := Option.isSome_iff_exists.1 hsome
    refine Or.inl ?_
    rw [h.parent n hn m hm]
    rfl
  · refine Or.inr fun above => ?_
    rw [h.path n hn]
    exact hnone above

/-- A change of another index, and of no node, is growth by nothing. -/
theorem of_nodes (h : SpaceForest d index base s) (hnodes : t.nodes = s.nodes)
    (helements : t.elements = s.elements) (hcode : (t.docSet d).code = (s.docSet d).code)
    (hindex : t.index d index = s.index d index) : SpacesGrow d index base s t := by
  have hnode : ∀ n, t.node n = s.node n := by
    intro n
    rw [Store.node, Store.node, hnodes]
  refine ⟨.of_nodes hnodes helements hcode, ?_, ?_, ?_⟩
  · exact h.congr (congrArg Table.size hnodes) hindex fun n => congrArg Node.unfiled (hnode n)
  · intro n _ m hm
    rw [hnode]
    exact hm
  · intro p hp
    rw [hindex] at hp
    exact .given hp

theorem record (h : SpaceForest d index base s) (logger : String) (level : Level) (text : String) :
    SpacesGrow d index base s (s.record logger level text) :=
  of_nodes h rfl rfl rfl rfl

/-- Entering a namespace in the index of elements is growth by nothing. -/
theorem enter (h : SpaceForest d index base s) {elements : String} (helements : elements ≠ index)
    (n : NodeId) :
    SpacesGrow d index base s (s.putEntry d elements (s.node n).indexKey (.node n)) := by
  refine of_nodes h rfl rfl (Store.code_putEntry s d elements _ _) ?_
  rw [Store.index_putEntry, if_neg helements]

/-- Making a namespace above a registered one is growth. -/
theorem create (h : SpaceForest d index base s) {n : NodeId} (hn : n ∈ s.madeSince base)
    {above : String} (hup : Path.parentKey (s.node n).path = .ok above)
    (hnew : above ∉ (s.index d index).keys) :
    SpacesGrow d index base s (s.withSpace d index above) := by
  have hold : ∀ x ∈ s.madeSince base, (s.withSpace d index above).node x = s.node x := fun x hx =>
    Store.node_addNode_of_ne (Store.ne_size_of_mem_madeSince hx)
  refine ⟨.withSpace h.registry.base_le d index above, h.create hnew, ?_, ?_⟩
  · intro x hx m hm
    rw [hold x hx]
    exact hm
  · intro p hp
    rw [Store.withSpace, Store.index_putEntry, if_pos rfl] at hp
    rcases Ledger.mem_keys_put.1 hp with rfl | hp
    · have hbelow : Path.Closure (· ∈ (s.index d index).keys) (s.node n).path :=
        .given (h.registry.mem_keys.2 ⟨n, hn, rfl⟩)
      exact hbelow.above hup
    · exact .given hp

/-- Hanging a namespace off the one above it is growth. -/
theorem link (h : SpaceForest d index base s) {n m : NodeId} (hn : n ∈ s.madeSince base)
    (hm : m ∈ s.madeSince base) (hfree : (s.node n).parent = none)
    (hup : Path.parentKey (s.node n).path = .ok (s.node m).path) :
    SpacesGrow d index base s (s.addChild m (s.node n).name n) := by
  refine ⟨.addChild hn hm _, h.link hn hm hfree hup, ?_, fun _ hp => .given hp⟩
  · intro x _ y hy
    rw [Store.parent_addChild]
    -- The namespace that is hung up had no parent before, so it is not the one at hand.
    have hxn : x ≠ n := by
      rintro rfl
      rw [hfree] at hy
      cases hy
    rw [if_neg hxn]
    exact hy

end SpacesGrow

/-! ## Linking -/

/-- Growth after which the namespaces listed, and all that were made meanwhile, are settled. -/
structure SpacesLinked (d : SetId) (index : String) (base : Nat) (s : Store) (ns : List NodeId)
    (t : Store) : Prop where
  grow : SpacesGrow d index base s t
  settled : ∀ x ∈ t.madeSince base, x ∉ s.madeSince base ∨ x ∈ ns → t.Settled x

namespace SpacesLinked

variable {d : SetId} {index : String} {base : Nat} {s t u : Store} {ns ms : List NodeId}

theorem nothing (h : SpaceForest d index base s) : SpacesLinked d index base s [] s := by
  refine ⟨.refl h, ?_⟩
  intro x hx hwhich
  rcases hwhich with hx' | hx'
  · exact absurd hx hx'
  · cases hx'

/-- Linking after some growth settles what the growth left over, if that is on the list. -/
theorem after (hgrow : SpacesGrow d index base s t) (hrest : SpacesLinked d index base t ms u)
    (hleft : ∀ x ∈ t.madeSince base, x ∉ s.madeSince base ∨ x ∈ ns → t.Settled x ∨ x ∈ ms) :
    SpacesLinked d index base s ns u := by
  refine ⟨hgrow.trans hrest.grow, ?_⟩
  intro x hx hwhich
  by_cases hxt : x ∈ t.madeSince base
  · rcases hleft x hxt hwhich with hsettled | hms
    · exact hrest.grow.settled hxt hsettled
    · exact hrest.settled x hx (Or.inr hms)
  · exact hrest.settled x hx (Or.inl hxt)

end SpacesLinked

section Steps

variable {ε : Type} {d : SetId} {index elements : String} {base : Nat}

theorem ensures_enterSpace {s : Store} {n : NodeId} {Q : Unit → Store → Prop} :
    Ensures (enterSpace d elements n : Build ε Unit) s Q ↔
      Q () (s.putEntry d elements (s.node n).indexKey (.node n)) :=
  ensures_change

theorem settled_addChild (s : Store) (m n : NodeId) (key : String) :
    (s.addChild m key n).Settled n := by
  refine Or.inl ?_
  rw [Store.parent_addChild, if_pos rfl]
  rfl

/-! ### A climb -/

/-- The store with the namespace above another made, entered in both indexes, and the other hung off
    it. -/
def Store.withAbove (s : Store) (d : SetId) (index elements above : String) (n : NodeId) : Store :=
  let made := s.withSpace d index above
  let entered := made.putEntry d elements (made.node ⟨s.nodes.size⟩).indexKey (.node ⟨s.nodes.size⟩)
  entered.addChild ⟨s.nodes.size⟩ (entered.node n).name n

/-- Making the namespace above is growth: the new one stands alone at its path, and the one below is
    settled. -/
theorem SpacesGrow.withAbove (helements : elements ≠ index) {s : Store} {n : NodeId}
    (h : SpaceForest d index base s) (hn : n ∈ s.madeSince base) (hfree : (s.node n).parent = none)
    {above : String} (hup : Path.parentKey (s.node n).path = .ok above)
    (hnew : above ∉ (s.index d index).keys) {t : Store}
    (ht : t = s.withAbove d index elements above n) :
    SpacesGrow d index base s t ∧ t.madeSince base = s.madeSince base ++ [⟨s.nodes.size⟩] ∧
      (t.node ⟨s.nodes.size⟩).path = above ∧ (t.node ⟨s.nodes.size⟩).parent = none ∧ t.Settled n := by
  have hself : (s.withSpace d index above).node ⟨s.nodes.size⟩ = .ofPath above :=
    Store.node_addNode_self s _
  have hother : (s.withSpace d index above).node n = s.node n :=
    Store.node_addNode_of_ne (Store.ne_size_of_mem_madeSince hn)
  have hcreate := SpacesGrow.create h hn hup hnew
  have henter := hcreate.trans (.enter hcreate.forest helements ⟨s.nodes.size⟩)
  rw [Store.withAbove] at ht
  generalize hu : (s.withSpace d index above).putEntry d elements _ _ = u at henter ht
  have hnode : ∀ x, u.node x = (s.withSpace d index above).node x := fun x => by rw [← hu]; rfl
  have hmade : u.madeSince base = s.madeSince base ++ [⟨s.nodes.size⟩] := by
    rw [← hu, ← Store.madeSince_addNode h.registry.base_le (.ofPath above)]
    rfl
  have hm : (⟨s.nodes.size⟩ : NodeId) ∈ u.madeSince base := by
    rw [hmade]
    exact List.mem_append_right _ List.mem_cons_self
  have hfree_u : (u.node n).parent = none := by
    rw [hnode, hother]
    exact hfree
  have hup_u : Path.parentKey (u.node n).path = .ok (u.node ⟨s.nodes.size⟩).path := by
    rw [hnode, hnode, hother, hself]
    exact hup
  have hne : (⟨s.nodes.size⟩ : NodeId) ≠ n := (Store.ne_size_of_mem_madeSince hn).symm
  subst ht
  refine ⟨henter.trans (.link henter.forest (henter.made n hn) hm hfree_u hup_u), ?_, ?_, ?_, ?_⟩
  · exact (Store.madeSince_addChild (henter.made n hn) hm _).trans hmade
  · rw [Store.path_addChild, hnode, hself]
    rfl
  · rw [Store.parent_addChild, if_neg hne, hnode, hself]
    rfl
  · exact settled_addChild u _ n _

/-- **A climb** settles the namespace that it starts from and all that it makes. -/
theorem climb_ensures (helements : elements ≠ index) (paths : List String) :
    ∀ (s : Store) (n : NodeId), SpaceForest d index base s → n ∈ s.madeSince base →
      (s.node n).parent = none → Path.lineage (s.node n).path = paths →
      Ensures (climb d index elements n paths) s fun _ t => SpacesLinked d index base s [n] t := by
  induction paths with
  | nil =>
    intro s n h hn _ hpaths
    rw [climb, ensures_bind, ensures_get, ensures_bind, ensures_debug, ensures_pure]
    have hgrow := SpacesGrow.record h spaceLogger Level.debug
      ("Leaving namespace " ++ (s.node n).path ++ " unparented: invalid parent path "
        ++ Text.quoted (s.node n).parentPath)
    refine .after hgrow (.nothing hgrow.forest) fun x hx hwhich => Or.inl ?_
    rcases hwhich with hx' | hx'
    · exact absurd hx hx'
    · rw [List.mem_singleton.1 hx']
      refine hgrow.settled hn (Or.inr fun above hup => ?_)
      rw [Path.lineage_eq, hup] at hpaths
      cases hpaths
  | cons above rest ih =>
    intro s n h hn hfree hpaths
    obtain ⟨hup, hrest⟩ := Path.lineage_eq_cons hpaths
    rw [climb, ensures_bind, ensures_lookUp]
    rcases h.registry.lookUp_cases above with ⟨m, hm, hpath, hfound⟩ | ⟨hnew, hmissing⟩
    · refine ⟨some m, hfound, ?_⟩
      rw [ensures_bind, ensures_change, ensures_pure]
      have hgrow := SpacesGrow.link h hn hm hfree (hpath ▸ hup)
      refine .after hgrow (.nothing hgrow.forest) fun x hx hwhich => Or.inl ?_
      rw [Store.madeSince_addChild hn hm] at hx
      rcases hwhich with hx' | hx'
      · exact absurd hx hx'
      · rw [List.mem_singleton.1 hx']
        exact settled_addChild s m n _
    · refine ⟨none, hmissing, ?_⟩
      rw [ensures_bind, ensures_createSpace, ensures_bind, ensures_enterSpace, ensures_bind,
        ensures_change]
      show Ensures _ (s.withAbove d index elements above n) _
      obtain ⟨hgrow, hmade, hpath, halone, hsettled⟩ :=
        SpacesGrow.withAbove helements h hn hfree hup hnew rfl
      rw [← hpath] at hrest
      have hm : (⟨s.nodes.size⟩ : NodeId) ∈
          (s.withAbove d index elements above n).madeSince base := by
        rw [hmade]
        exact List.mem_append_right _ List.mem_cons_self
      refine (ih _ ⟨s.nodes.size⟩ hgrow.forest hm halone hrest).mono fun _ u hu => ?_
      refine .after hgrow hu fun x hx hwhich => ?_
      rw [hmade, List.mem_append] at hx
      rcases hwhich with hx' | hx'
      · exact Or.inr (hx.resolve_left hx')
      · rw [List.mem_singleton.1 hx']
        exact Or.inl hsettled

/-! ### A run -/

/-- Linking one namespace that has no parent yet. -/
theorem linkSpace_ensures (helements : elements ≠ index) {s : Store} {n : NodeId}
    (h : SpaceForest d index base s) (hn : n ∈ s.madeSince base) (hfree : (s.node n).parent = none) :
    Ensures (linkSpace d index elements n) s fun _ t => SpacesLinked d index base s [n] t := by
  rw [linkSpace, ensures_bind, ensures_enterSpace, ensures_bind, ensures_get]
  have henter := SpacesGrow.enter h helements n
  have hlineage : Path.lineage (s.node n).path = (s.node n).lineage := (h.formed n hn).lineage_eq.symm
  refine (climb_ensures helements _ _ n henter.forest (henter.made n hn) hfree hlineage).mono ?_
  intro _ t ht
  refine .after henter ht fun x hx hwhich => Or.inr ?_
  rcases hwhich with hx' | hx'
  · exact absurd hx hx'
  · exact hx'

/-- **A run of linking** settles every namespace that it is given, and every one that it makes. -/
theorem linkSpaces_ensures (helements : elements ≠ index) (ns : List NodeId) :
    ∀ s : Store, SpaceForest d index base s → (∀ n ∈ ns, n ∈ s.madeSince base) →
      Ensures (linkSpaces d index elements ns) s fun _ t => SpacesLinked d index base s ns t := by
  induction ns with
  | nil =>
    intro s h _
    rw [linkSpaces, ensures_pure]
    exact .nothing h
  | cons n rest ih =>
    intro s h hns
    have hn : n ∈ s.madeSince base := hns n List.mem_cons_self
    have hrest : ∀ x ∈ rest, x ∈ s.madeSince base := fun x hx => hns x (List.mem_cons_of_mem _ hx)
    rw [linkSpaces, ensures_bind, ensures_get]
    dsimp only
    split
    · rename_i hskip
      -- A root has nothing above it, so what is passed over is settled.
      have hsettled : s.Settled n := by
        rcases Bool.or_eq_true_iff.1 hskip with hroot | hsome
        · refine Or.inr fun above hup => ?_
          rw [show (s.node n).path = Path.root from eq_of_beq hroot, Path.parentKey_root] at hup
          cases hup
        · exact Or.inl hsome
      refine (ih s h hrest).mono fun _ t ht => ?_
      refine .after (.refl h) ht fun x hx hwhich => ?_
      rcases hwhich with hx' | hx'
      · exact absurd hx hx'
      · rcases List.mem_cons.1 hx' with rfl | hx'
        · exact Or.inl hsettled
        · exact Or.inr hx'
    · rename_i hgo
      have hfree : (s.node n).parent = none := by
        rw [Bool.or_eq_true_iff, not_or] at hgo
        exact Option.not_isSome_iff_eq_none.1 hgo.2
      rw [ensures_bind]
      refine (linkSpace_ensures helements h hn hfree).mono fun _ t ht => ?_
      rw [ensures_bind]
      refine (ih t ht.grow.forest fun x hx => ht.grow.made x (hrest x hx)).mono fun _ u hu => ?_
      rw [ensures_pure]
      refine .after ht.grow hu fun x hx hwhich => ?_
      rcases hwhich with hx' | hx'
      · exact Or.inl (ht.settled x hx (Or.inl hx'))
      · rcases List.mem_cons.1 hx' with rfl | hx'
        · exact Or.inl (ht.settled x hx (Or.inr List.mem_cons_self))
        · exact Or.inr hx'

end Steps

end Docset
