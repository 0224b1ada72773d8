/-
  Climbs from any namespace.

  A build only ever climbs from namespaces that it made itself, into an index that it filled itself.  The
  climb does not rely on that.  Here the index may hold any namespaces, with or without a root, and null
  counts as nothing (`Store.HoldsSpaces`); the namespace at the start may have any name, path and parent
  path, which need not fit together.

  What a climb does is told by the keys above the namespace (`Node.Keys`) and by where the first known one
  stands among them.

  1. The keys come to an end, and none comes twice (`Node.nodup_lineage`): from the second key on each step
     comes nearer to the root, whatever the first key was.
  2. So what is made for one key is never met under a later one, and the rest of the climb finds the index
     as it was at the start (`Store.spaceAt?_withAbove`).  This carries the induction (`climb_climbs`).
  3. The namespace at the start is entered first and those that are made are entered after it, so it stays
     in the index of elements unless one of them has its path (`linkSpace_climbs`).
-/
import Mathlib.Data.List.Chain
import Mathlib.Data.List.Nodup
import Mathlib.Data.List.TakeWhile
import Docset.Proofs.Footprint
import Docset.Proofs.Namespace.Entered

namespace Docset

open Build

/-! ## The keys above a namespace -/

/-- The keys above a namespace, nearest first: its parent key, the parent key of the namespace at that
    path, and so on until one has none. -/
inductive Node.Keys : Node → List String → Prop
  | stop {n : Node} {fault : NameError} : n.parentKey = .error fault → Node.Keys n []
  | up {n : Node} {key : String} {keys : List String} :
      n.parentKey = .ok key → Node.Keys (.ofPath key) keys → Node.Keys n (key :: keys)

/-- The paths above a path are the keys above its namespace. -/
theorem Path.keys_lineage (path : String) : (Node.ofPath path).Keys (Path.lineage path) := by
  rw [lineage_eq]
  cases h : parentKey path with
  | error fault => exact .stop h
  | ok above =>
    have hlower := height_parentKey_lt h
    exact .up h (keys_lineage above)
termination_by height path

/-- What lies above a path is nearer to the root. -/
theorem Path.height_lt_of_mem_lineage {path above : String} (h : above ∈ lineage path) :
    height above < height path := by
  rw [lineage_eq] at h
  cases hup : parentKey path with
  | error fault =>
    rw [hup] at h
    cases h
  | ok next =>
    rw [hup] at h
    have hlower := height_parentKey_lt hup
    rcases List.mem_cons.1 h with rfl | h
    · exact hlower
    · exact Nat.lt_trans (height_lt_of_mem_lineage h) hlower
termination_by height path

/-- No path lies above a path twice. -/
theorem Path.nodup_lineage (path : String) : (lineage path).Nodup := by
  rw [lineage_eq]
  cases h : parentKey path with
  | error fault => exact List.nodup_nil
  | ok above =>
    have hlower := height_parentKey_lt h
    refine List.nodup_cons.2 ⟨fun hmem => ?_, nodup_lineage above⟩
    exact Nat.lt_irrefl _ (height_lt_of_mem_lineage hmem)
termination_by height path

namespace Node

/-- **The keys above a namespace come to an end**, and they are its lineage. -/
theorem keys_lineage (n : Node) : n.Keys n.lineage := by
  rw [lineage]
  cases h : n.parentKey with
  | error fault => exact .stop h
  | ok above => exact .up h (Path.keys_lineage above)

theorem Keys.eq_lineage {n : Node} {keys : List String} (h : n.Keys keys) : keys = n.lineage := by
  induction h with
  | stop hnone => rw [lineage, hnone]
  | up hkey _ ih =>
    rw [(formed_ofPath _).lineage_eq] at ih
    rw [lineage, hkey, ih]
    rfl

/-- No key comes twice, not even the first, which the namespace may have been given by hand. -/
theorem nodup_lineage (n : Node) : n.lineage.Nodup := by
  rw [lineage]
  cases n.parentKey with
  | error fault => exact List.nodup_nil
  | ok above =>
    refine List.nodup_cons.2 ⟨fun hmem => ?_, Path.nodup_lineage above⟩
    exact Nat.lt_irrefl _ (Path.height_lt_of_mem_lineage hmem)

/-- The node as it was before it was linked to others. -/
def unlinked (n : Node) : Node := { n with parent := none, children := .empty }

end Node

/-! ## The index -/

/-- Every entry of the index is null or a namespace that was made. -/
def Store.HoldsSpaces (s : Store) (d : SetId) (index : String) : Prop :=
  ∀ key entry, (s.index d index).get? key = some entry →
    entry = .foreign .null ∨ ∃ n, entry = .node n ∧ n.row < s.nodes.size ∧ (s.node n).tree = .spaces

/-- The node that an index holds under a key. -/
def Store.spaceAt? (s : Store) (d : SetId) (index key : String) : Option NodeId :=
  match (s.index d index).get? key with
  | some (.node n) => some n
  | _ => none

namespace Store

variable {s : Store} {d : SetId} {index elements key : String} {n m : NodeId}

theorem spaceAt?_eq_some : s.spaceAt? d index key = some m ↔
    (s.index d index).get? key = some (.node m) := by
  rw [spaceAt?]
  split
  · rename_i x hget
    rw [hget]
    simp
  · rename_i hother
    constructor
    · intro h
      cases h
    · intro hget
      exact absurd hget (hother m)

/-- A look-up in such an index does not fail. -/
theorem HoldsSpaces.lookUp (h : s.HoldsSpaces d index) (key : String) :
    s.lookUp .spaces d index key = .ok (s.spaceAt? d index key) := by
  rw [Store.lookUp, spaceAt?]
  cases hget : (s.index d index).get? key with
  | none => rfl
  | some entry =>
    rcases h key entry hget with rfl | ⟨n, rfl, -, htree⟩
    · rfl
    · exact if_pos htree

theorem HoldsSpaces.row_lt (h : s.HoldsSpaces d index) (hfound : s.spaceAt? d index key = some m) :
    m.row < s.nodes.size := by
  rcases h key _ (spaceAt?_eq_some.1 hfound) with hnull | ⟨n, heq, hrow, -⟩
  · cases hnull
  · cases heq
    exact hrow

/-! ### Making the namespace above -/

section WithAbove

variable {above : String}

theorem size_withAbove (hn : n.row < s.nodes.size) :
    (s.withAbove d index elements above n).nodes.size = s.nodes.size + 1 := by
  have hsize : (s.addNode (.ofPath above)).1.nodes.size = s.nodes.size + 1 := size_addNode s _
  rw [withAbove, size_addChild]
  · exact hsize
  · show s.nodes.size < (s.addNode (.ofPath above)).1.nodes.size
    omega
  · show n.row < (s.addNode (.ofPath above)).1.nodes.size
    omega

theorem node_withAbove_self (hn : n.row < s.nodes.size) :
    (s.withAbove d index elements above n).node ⟨s.nodes.size⟩ =
      { Node.ofPath above with children := Ledger.empty.put (s.node n).name n } := by
  have hne : (⟨s.nodes.size⟩ : NodeId) ≠ n := by
    rintro rfl
    exact Nat.lt_irrefl _ hn
  rw [withAbove, node_addChild, if_neg hne, if_pos rfl]
  show { (s.addNode (.ofPath above)).1.node ⟨s.nodes.size⟩ with
    parent := ((s.addNode (.ofPath above)).1.node ⟨s.nodes.size⟩).parent
    children := ((s.addNode (.ofPath above)).1.node ⟨s.nodes.size⟩).children.put
      ((s.addNode (.ofPath above)).1.node n).name n } = _
  rw [node_addNode_self, node_addNode_of_ne hne.symm]
  rfl

theorem node_withAbove_of_lt {x : NodeId} (hx : x.row < s.nodes.size) :
    (s.withAbove d index elements above n).node x =
      { s.node x with parent := if x = n then some ⟨s.nodes.size⟩ else (s.node x).parent } := by
  have hne : x ≠ ⟨s.nodes.size⟩ := by
    rintro rfl
    exact Nat.lt_irrefl _ hx
  rw [withAbove, node_addChild, if_neg hne]
  show { (s.addNode (.ofPath above)).1.node x with
    parent := if x = n then some ⟨s.nodes.size⟩ else ((s.addNode (.ofPath above)).1.node x).parent } = _
  rw [node_addNode_of_ne hne]

theorem index_withAbove (helements : elements ≠ index) :
    (s.withAbove d index elements above n).index d index =
      (s.index d index).put above (.node ⟨s.nodes.size⟩) := by
  show ((s.withSpace d index above).putEntry d elements _ _).index d index = _
  rw [index_putEntry, if_neg helements, withSpace, index_putEntry, if_pos rfl]
  rfl

theorem elements_withAbove (helements : elements ≠ index) :
    (s.withAbove d index elements above n).index d elements =
      (s.index d elements).put ("~" ++ above) (.node ⟨s.nodes.size⟩) := by
  have hself : (s.withSpace d index above).node ⟨s.nodes.size⟩ = .ofPath above :=
    node_addNode_self s _
  show ((s.withSpace d index above).putEntry d elements _ _).index d elements = _
  rw [index_putEntry, if_pos rfl, hself, withSpace, index_putEntry, if_neg helements.symm]
  rfl

/-- The index at other keys is as it was. -/
theorem spaceAt?_withAbove (helements : elements ≠ index) (hkey : above ≠ key) :
    (s.withAbove d index elements above n).spaceAt? d index key = s.spaceAt? d index key := by
  rw [spaceAt?, spaceAt?, index_withAbove helements, Ledger.get?_put_of_ne hkey]

theorem HoldsSpaces.withAbove (h : s.HoldsSpaces d index) (helements : elements ≠ index)
    (hn : n.row < s.nodes.size) :
    (s.withAbove d index elements above n).HoldsSpaces d index := by
  intro key entry hget
  rw [index_withAbove helements, Ledger.get?_put] at hget
  rw [size_withAbove hn]
  split at hget
  · cases hget
    refine Or.inr ⟨_, rfl, Nat.lt_succ_self _, ?_⟩
    rw [node_withAbove_self hn]
    rfl
  · rcases h key entry hget with hnull | ⟨m, rfl, hrow, htree⟩
    · exact Or.inl hnull
    · refine Or.inr ⟨m, rfl, Nat.lt_succ_of_lt hrow, ?_⟩
      rw [node_withAbove_of_lt hrow]
      exact htree

end WithAbove

end Store

/-! ## What a climb does -/

/-- The one node hangs off the other: it has it for a parent and stands among its children. -/
def Store.Hangs (s : Store) (n m : NodeId) : Prop :=
  (s.node n).parent = some m ∧ (s.node m).children.get? (s.node n).name = some n

/-- The climb from `n` made one namespace for each of the missing keys and ended at the node `top`, if at
    any; before it, the index of elements was `before`. -/
structure Climbed (d : SetId) (index elements : String) (s : Store) (before : Index) (n : NodeId)
    (missing : List String) (top : Option NodeId) (t : Store) : Prop where
  size : t.nodes.size = s.nodes.size + missing.length
  made : (t.madeSince s.nodes.size).map (fun m => (t.node m).unlinked) = missing.map Node.ofPath
  registered : t.index d index =
    (s.index d index).putAll (missing.zip ((t.madeSince s.nodes.size).map .node))
  entered : t.index d elements =
    before.putAll ((missing.map ("~" ++ ·)).zip ((t.madeSince s.nodes.size).map .node))
  linked : (n :: (t.madeSince s.nodes.size ++ top.toList)).IsChain t.Hangs
  /-- Of the nodes that were there before, `n` gets its parent and `top` gets a child. -/
  kept : ∀ x : NodeId, x.row < s.nodes.size → (t.node x).unlinked = (s.node x).unlinked
  parent : ∀ x : NodeId, x.row < s.nodes.size → (t.node x).parent =
    if x = n then (t.madeSince s.nodes.size ++ top.toList).head?.or (s.node x).parent
    else (s.node x).parent
  children : ∀ x : NodeId, x.row < s.nodes.size → (t.node x).children =
    let last := (t.madeSince s.nodes.size).getLastD n
    if top = some x then (s.node x).children.put (t.node last).name last else (s.node x).children

namespace Climbed

variable {d : SetId} {index elements : String} {s t : Store} {before : Index} {n m : NodeId}
  {missing : List String} {top : Option NodeId}

/-- A climb that has no way up from the start. -/
theorem stay (hnodes : t.nodes = s.nodes) (hindex : ∀ name, t.index d name = s.index d name) :
    Climbed d index elements s (s.index d elements) n [] none t := by
  have hsize : t.nodes.size = s.nodes.size := congrArg Table.size hnodes
  have hnone : t.madeSince s.nodes.size = [] := Store.madeSince_of_size_le (Nat.le_of_eq hsize)
  have hnode : ∀ x, t.node x = s.node x := by
    intro x
    rw [Store.node, Store.node, hnodes]
  refine ⟨hsize, ?_, hindex index, hindex elements, ?_, ?_, ?_, ?_⟩
  · rw [hnone]
    rfl
  · rw [hnone]
    exact .singleton n
  · intro x _
    rw [hnode]
  · intro x _
    rw [hnone, hnode]
    simp
  · intro x _
    rw [hnode]
    rfl

/-- A climb that meets a known namespace at once. -/
theorem meet (hn : n.row < s.nodes.size) (hm : m.row < s.nodes.size) :
    Climbed d index elements s (s.index d elements) n [] (some m)
      (s.addChild m (s.node n).name n) := by
  have hsize := Store.size_addChild hm hn (s.node n).name
  have hnone := Store.madeSince_of_size_le (Nat.le_of_eq hsize)
  refine ⟨hsize, ?_, rfl, rfl, ?_, ?_, ?_, ?_⟩
  · rw [hnone]
    rfl
  · rw [hnone]
    refine .cons_cons ⟨?_, ?_⟩ (.singleton m)
    · rw [Store.parent_addChild, if_pos rfl]
    · rw [Store.children_addChild, if_pos rfl, Store.name_addChild, Ledger.get?_put_self]
  · intro x _
    rw [Store.node_addChild]
    rfl
  · intro x _
    rw [hnone, Store.parent_addChild]
    rfl
  · intro x _
    rw [hnone, Store.children_addChild]
    simp only [List.getLastD_nil, Option.some.injEq, eq_comm (a := m), Store.name_addChild]

/-- A climb goes on from the namespace that it made, to a top that was there before. -/
theorem step {above : String} (helements : elements ≠ index) (hn : n.row < s.nodes.size)
    (htop : ∀ x, top = some x → x.row < s.nodes.size)
    (h : Climbed d index elements (s.withAbove d index elements above n)
      ((s.withAbove d index elements above n).index d elements) ⟨s.nodes.size⟩ missing top t) :
    Climbed d index elements s (s.index d elements) n (above :: missing) top t := by
  obtain ⟨hsize, hmade, hregistered, hentered, hlinked, hkept, hparent, hchildren⟩ := h
  rw [Store.size_withAbove hn] at hsize hmade hregistered hentered hlinked hkept hparent hchildren
  rw [Store.index_withAbove helements] at hregistered
  rw [Store.elements_withAbove helements] at hentered
  have hnew : t.madeSince s.nodes.size = ⟨s.nodes.size⟩ :: t.madeSince (s.nodes.size + 1) :=
    Store.madeSince_of_lt (by omega)
  have hlt : ∀ x : NodeId, x.row < s.nodes.size → x.row < s.nodes.size + 1 ∧ x ≠ ⟨s.nodes.size⟩ := by
    intro x hx
    refine ⟨Nat.lt_succ_of_lt hx, ?_⟩
    rintro rfl
    exact Nat.lt_irrefl _ hx
  have hself := Nat.lt_succ_self s.nodes.size
  refine ⟨?_, ?_, ?_, ?_, ?_, ?_, ?_, ?_⟩
  · rw [hsize, List.length_cons]
    omega
  · rw [hnew, List.map_cons, List.map_cons, hmade, hkept ⟨s.nodes.size⟩ hself, Store.node_withAbove_self hn]
    rfl
  · rw [hregistered, hnew]
    rfl
  · rw [hentered, hnew]
    rfl
  · rw [hnew]
    refine .cons_cons ⟨?_, ?_⟩ hlinked
    · rw [hparent n (hlt n hn).1, if_neg (hlt n hn).2, Store.node_withAbove_of_lt hn]
      exact if_pos rfl
    · -- The namespace made is not the top, so its one child is `n`.
      have hfresh : top ≠ some ⟨s.nodes.size⟩ := fun heq => Nat.lt_irrefl _ (htop _ heq)
      have hname : (t.node n).name = (s.node n).name := by
        have hunlinked := congrArg Node.name (hkept n (hlt n hn).1)
        rw [Store.node_withAbove_of_lt hn] at hunlinked
        exact hunlinked
      rw [hchildren ⟨s.nodes.size⟩ hself, Store.node_withAbove_self hn, hname]
      dsimp only
      rw [if_neg hfresh]
      exact Ledger.get?_put_self _ _ _
  · intro x hx
    rw [hkept x (hlt x hx).1, Store.node_withAbove_of_lt hx]
    rfl
  · intro x hx
    rw [hparent x (hlt x hx).1, if_neg (hlt x hx).2, Store.node_withAbove_of_lt hx, hnew]
    dsimp only
    by_cases hxn : x = n
    · rw [if_pos hxn, if_pos hxn]
      rfl
    · rw [if_neg hxn, if_neg hxn]
  · intro x hx
    rw [hchildren x (hlt x hx).1, Store.node_withAbove_of_lt hx, hnew, List.getLastD_cons]

end Climbed

section Run

variable {d : SetId} {index elements : String} {s : Store}

/-- The keys without an entry that come before the first one with an entry. -/
def Store.missing (s : Store) (d : SetId) (index : String) (keys : List String) : List String :=
  keys.takeWhile fun key => (s.spaceAt? d index key).isNone

/-- The node under the first of the keys that has an entry. -/
def Store.firstKnown (s : Store) (d : SetId) (index : String) (keys : List String) : Option NodeId :=
  keys.findSome? (s.spaceAt? d index)

/-- **A climb along any keys without repetition** makes what is missing before the first known one, and
    ends there.  Which ones are known was settled in `s₀`. -/
theorem climb_climbs (s₀ : Store) (helements : elements ≠ index) (keys : List String) :
    ∀ (s : Store) (n : NodeId), s.HoldsSpaces d index → n.row < s.nodes.size → keys.Nodup →
      (∀ key ∈ keys, s.spaceAt? d index key = s₀.spaceAt? d index key) →
      Ensures (climb d index elements n keys) s fun linked t =>
        linked = (s₀.firstKnown d index keys).isSome ∧
        Climbed d index elements s (s.index d elements) n (s₀.missing d index keys)
          (s₀.firstKnown d index keys) t := by
  induction keys with
  | nil =>
    intro s n _ _ _ _
    rw [climb, ensures_bind, ensures_get, ensures_bind, ensures_debug, ensures_pure]
    exact ⟨rfl, .stay rfl fun _ => rfl⟩
  | cons above rest ih =>
    intro s n h hn hnodup hsame
    obtain ⟨habove, hnodup⟩ := List.nodup_cons.1 hnodup
    have hsame_above := hsame above List.mem_cons_self
    have hsame_rest : ∀ key ∈ rest, s.spaceAt? d index key = s₀.spaceAt? d index key := fun key hkey =>
      hsame key (List.mem_cons_of_mem _ hkey)
    rw [climb, ensures_bind, ensures_lookUp]
    refine ⟨s.spaceAt? d index above, h.lookUp above, ?_⟩
    rw [Store.firstKnown, Store.missing, List.findSome?_cons, List.takeWhile_cons, ← hsame_above]
    cases hfound : s.spaceAt? d index above with
    | some m =>
      rw [ensures_bind, ensures_change, ensures_pure]
      exact ⟨rfl, .meet hn (h.row_lt hfound)⟩
    | none =>
      rw [ensures_bind, ensures_createSpace, ensures_bind, ensures_enterSpace, ensures_bind,
        ensures_change]
      show Ensures _ (s.withAbove d index elements above n) _
      have hrow : s.nodes.size < (s.withAbove d index elements above n).nodes.size := by
        rw [Store.size_withAbove hn]
        exact Nat.lt_succ_self _
      -- No later key is the one just written, so the rest of the climb finds the index as it was.
      have hsame' : ∀ key ∈ rest, (s.withAbove d index elements above n).spaceAt? d index key =
          s₀.spaceAt? d index key := by
        intro key hkey
        have hne : above ≠ key := by
          rintro rfl
          exact habove hkey
        rw [Store.spaceAt?_withAbove helements hne, hsame_rest key hkey]
      refine (ih _ ⟨s.nodes.size⟩ (h.withAbove helements hn) hrow hnodup hsame').mono ?_
      rintro linked t ⟨hlinked, ht⟩
      refine ⟨hlinked, ht.step helements hn fun m hm => ?_⟩
      obtain ⟨key, hkey, hfound⟩ := List.exists_of_findSome?_eq_some hm
      rw [← hsame_rest key hkey] at hfound
      exact h.row_lt hfound

end Run

/-! ## Linking one namespace -/

section Link

variable {d : SetId} {index elements : String} {s t : Store} {n : NodeId}

/-- What is missing has no entry, or null for one. -/
theorem Store.HoldsSpaces.not_mem_missing (h : s.HoldsSpaces d index) {keys : List String}
    {key : String} {entry : Entry} (hget : (s.index d index).get? key = some entry)
    (hentry : entry ≠ .foreign .null) : key ∉ s.missing d index keys := by
  intro hkey
  have hnone := List.mem_takeWhile_imp hkey
  rcases h key entry hget with hnull | ⟨m, rfl, -, -⟩
  · exact hentry hnull
  · rw [Store.spaceAt?_eq_some.2 hget] at hnone
    cases hnone

namespace Climbed

variable {before : Index} {missing : List String} {top : Option NodeId}

/-- A climb that begins with an entry in the index of elements. -/
theorem after_enter {key : String} (helements : elements ≠ index)
    (h : Climbed d index elements (s.putEntry d elements key (.node n))
      ((s.putEntry d elements key (.node n)).index d elements) n missing top t) :
    Climbed d index elements s ((s.index d elements).put key (.node n)) n missing top t := by
  obtain ⟨hsize, hmade, hregistered, hentered, hlinked, hkept, hparent, hchildren⟩ := h
  rw [Store.index_putEntry, if_neg helements] at hregistered
  rw [Store.index_putEntry, if_pos rfl] at hentered
  exact ⟨hsize, hmade, hregistered, hentered, hlinked, hkept, hparent, hchildren⟩

section

variable (h : Climbed d index elements s before n missing top t)
include h

theorem length_made : (t.madeSince s.nodes.size).length = missing.length := by
  have hlength := congrArg List.length h.made
  rw [List.length_map, List.length_map] at hlength
  exact hlength

/-- The keys written into the index are the missing ones, in order. -/
theorem keys_registered :
    (missing.zip ((t.madeSince s.nodes.size).map Entry.node)).map Prod.fst = missing := by
  refine List.map_fst_zip ?_
  rw [List.length_map, h.length_made]

/-- The keys written into the index of elements are the missing ones with the mark in front. -/
theorem keys_entered : ((missing.map ("~" ++ ·)).zip
    ((t.madeSince s.nodes.size).map Entry.node)).map Prod.fst = missing.map ("~" ++ ·) := by
  refine List.map_fst_zip ?_
  rw [List.length_map, List.length_map, h.length_made]

/-- What is made for a key stands under it in both indexes. -/
theorem get?_made (hmissing : missing.Nodup) {key : String} {m : NodeId}
    (hpair : (key, m) ∈ missing.zip (t.madeSince s.nodes.size)) :
    (t.index d index).get? key = some (.node m) ∧
      (t.index d elements).get? ("~" ++ key) = some (.node m) := by
  constructor
  · rw [h.registered]
    refine Ledger.get?_putAll_of_mem (by rw [h.keys_registered]; exact hmissing) ?_
    rw [List.zip_map_right, List.mem_map]
    exact ⟨(key, m), hpair, rfl⟩
  · rw [h.entered]
    have hmarked : (missing.map ("~" ++ ·)).Nodup :=
      List.Nodup.map (fun p q hpq => marked_inj.1 hpq) hmissing
    refine Ledger.get?_putAll_of_mem (by rw [h.keys_entered]; exact hmarked) ?_
    rw [List.zip_map, List.mem_map]
    exact ⟨(key, m), hpair, rfl⟩

/-- Under every other key the index is as it was. -/
theorem get?_of_not_missing {key : String} (hkey : key ∉ missing) :
    (t.index d index).get? key = (s.index d index).get? key := by
  rw [h.registered, Ledger.get?_putAll_of_not_mem]
  rw [h.keys_registered]
  exact hkey

/-- **The namespace at the start** stays in the index of elements exactly if none with its path is
    made. -/
theorem entered_iff (hbefore : before.get? (s.node n).indexKey = some (.node n))
    (hmissing : missing.Nodup) (hn : n.row < s.nodes.size) :
    (t.index d elements).get? (s.node n).indexKey = some (.node n) ↔ (s.node n).path ∉ missing := by
  constructor
  · intro hget hpath
    -- The one made for the path stands under the key, and it is not an old one.
    have hfst : (s.node n).path ∈ (missing.zip (t.madeSince s.nodes.size)).map Prod.fst := by
      rw [List.map_fst_zip (Nat.le_of_eq h.length_made.symm)]
      exact hpath
    obtain ⟨⟨key, m⟩, hpair, hkey⟩ := List.mem_map.1 hfst
    have hm : m ∈ t.madeSince s.nodes.size := (List.of_mem_zip hpair).2
    have hmade := (h.get?_made hmissing hpair).2
    rw [show key = (s.node n).path from hkey] at hmade
    rw [show (s.node n).indexKey = "~" ++ (s.node n).path from rfl, hmade] at hget
    cases hget
    have hrow := (Store.mem_madeSince.1 hm).1
    omega
  · intro hpath
    rw [h.entered, Ledger.get?_putAll_of_not_mem, hbefore]
    rw [h.keys_entered, List.mem_map]
    rintro ⟨key, hkey, heq⟩
    rw [marked_inj.1 heq] at hkey
    exact hpath hkey

end

end Climbed

/-- **Linking any namespace ends well.**  The keys above it come to an end, and none comes twice.  For each
    missing one before the first known one a namespace is made, in both indexes and linked; no entry is
    replaced; the answer is whether there is a known one.  The namespace itself is entered, and stays so
    unless one with its path is made on the way. -/
theorem linkSpace_climbs (helements : elements ≠ index) (h : s.HoldsSpaces d index)
    (hn : n.row < s.nodes.size) :
    ∃ keys, (s.node n).Keys keys ∧ keys.Nodup ∧
      Ensures (linkSpace d index elements n) s fun linked t =>
        linked = (s.firstKnown d index keys).isSome ∧
        Climbed d index elements s ((s.index d elements).put (s.node n).indexKey (.node n)) n
          (s.missing d index keys) (s.firstKnown d index keys) t ∧
        (∀ key m, (key, m) ∈ (s.missing d index keys).zip (t.madeSince s.nodes.size) →
          (t.index d index).get? key = some (.node m) ∧
            (t.index d elements).get? ("~" ++ key) = some (.node m)) ∧
        (∀ key entry, (s.index d index).get? key = some entry → entry ≠ .foreign .null →
          (t.index d index).get? key = some entry) ∧
        ((t.index d elements).get? (s.node n).indexKey = some (.node n) ↔
          (s.node n).path ∉ s.missing d index keys) := by
  have hnodup := (s.node n).nodup_lineage
  refine ⟨(s.node n).lineage, (s.node n).keys_lineage, hnodup, ?_⟩
  rw [linkSpace, ensures_bind, ensures_enterSpace, ensures_bind, ensures_get]
  have hindex : (s.putEntry d elements (s.node n).indexKey (.node n)).index d index =
      s.index d index := by
    rw [Store.index_putEntry, if_neg helements]
  have hsame : ∀ key, (s.putEntry d elements (s.node n).indexKey (.node n)).spaceAt? d index key =
      s.spaceAt? d index key := by
    intro key
    rw [Store.spaceAt?, Store.spaceAt?, hindex]
  have hholds : (s.putEntry d elements (s.node n).indexKey (.node n)).HoldsSpaces d index := by
    intro key entry hget
    rw [hindex] at hget
    exact h key entry hget
  refine (climb_climbs s helements _ _ n hholds hn hnodup fun key _ => hsame key).mono ?_
  rintro linked t ⟨hlinked, hclimbed⟩
  have ht := hclimbed.after_enter helements
  have hmissing : (s.missing d index (s.node n).lineage).Nodup :=
    hnodup.sublist (List.takeWhile_sublist _)
  refine ⟨hlinked, ht, fun key m => ht.get?_made hmissing, fun key entry hget hentry => ?_, ?_⟩
  · rw [ht.get?_of_not_missing (h.not_mem_missing hget hentry), hget]
  · exact ht.entered_iff (Ledger.get?_put_self _ _ _) hmissing hn

/-- `\A\B` over the root: `\A` is made between the two. -/
theorem linkSpace_climbs_between :
    let s := ((Store.ofDeclared []).addNode (.ofPath "\\A\\B")).1.putEntry ⟨0⟩ Tree.spaces.indexName
      Path.root (.node ⟨0⟩)
    elementsIndex ≠ Tree.spaces.indexName ∧ s.HoldsSpaces ⟨0⟩ Tree.spaces.indexName ∧
      2 < s.nodes.size ∧
      Ensures (linkSpace ⟨0⟩ Tree.spaces.indexName elementsIndex ⟨2⟩) s fun linked t =>
        linked = true ∧ t.Hangs ⟨2⟩ ⟨3⟩ ∧ t.Hangs ⟨3⟩ ⟨0⟩ ∧ (t.node ⟨3⟩).unlinked = .ofPath "\\A" ∧
          (t.index ⟨0⟩ elementsIndex).get? "~\\A" = some (.node ⟨3⟩) := by
  intro s
  have helements : elementsIndex ≠ Tree.spaces.indexName := by decide
  have hholds : s.HoldsSpaces ⟨0⟩ Tree.spaces.indexName := by
    intro key entry hget
    have hindex : s.index ⟨0⟩ Tree.spaces.indexName = Ledger.empty.put Path.root (.node ⟨0⟩) := by
      rw [Store.index_putEntry, if_pos rfl]
      rfl
    rw [hindex, Ledger.get?_put] at hget
    split at hget
    · cases hget
      exact Or.inr ⟨⟨0⟩, rfl, by decide, by decide⟩
    · cases hget
  have hn : 2 < s.nodes.size := by decide
  refine ⟨helements, hholds, hn, ?_⟩
  obtain ⟨keys, hkeys, -, hruns⟩ := linkSpace_climbs (n := ⟨2⟩) helements hholds hn
  have hlineage : keys = ["\\A", "\\"] := by
    rw [hkeys.eq_lineage]
    decide
  subst hlineage
  refine hruns.mono ?_
  rintro linked t ⟨hlinked, hclimbed, hentered, -, -⟩
  have hmissing : s.missing ⟨0⟩ Tree.spaces.indexName ["\\A", "\\"] = ["\\A"] := by decide
  have hknown : s.firstKnown ⟨0⟩ Tree.spaces.indexName ["\\A", "\\"] = some ⟨0⟩ := by decide
  rw [hmissing, hknown] at hclimbed
  rw [hmissing] at hentered
  rw [hknown] at hlinked
  have hnew : t.madeSince s.nodes.size = [⟨3⟩] := Store.madeSince_of_size_succ hclimbed.size
  have hlinks := hclimbed.linked
  have hmade := hclimbed.made
  rw [hnew] at hlinks hmade hentered
  refine ⟨hlinked, ?_, ?_, ?_, ?_⟩
  · cases hlinks with
    | cons_cons hfirst _ => exact hfirst
  · cases hlinks with
    | cons_cons _ hrest =>
      cases hrest with
      | cons_cons hsecond _ => exact hsecond
  · exact (List.cons.inj hmade).1
  · exact (hentered "\\A" ⟨3⟩ List.mem_cons_self).2

/-- A namespace made by hand that has `\A` for its path and for its parent path: the one made for its
    parent takes its place in the index of elements. -/
theorem linkSpace_supplants :
    let s := ((Store.ofDeclared []).addNode (.single (.space "\\A") "X" "\\A")).1
    elementsIndex ≠ Tree.spaces.indexName ∧ s.HoldsSpaces ⟨0⟩ Tree.spaces.indexName ∧
      2 < s.nodes.size ∧
      (⟨2⟩ : NodeId) ∉ Index.nodes ((Build.after
        (linkSpace ⟨0⟩ Tree.spaces.indexName elementsIndex ⟨2⟩) s).index ⟨0⟩ elementsIndex) := by
  intro s
  refine ⟨by decide, ?_, by decide, by decide +kernel⟩
  intro key entry hget
  cases hget

end Link

end Docset
