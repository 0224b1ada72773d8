/-
  How far the root is from a namespace.

  **The theorem** (`buildSpaces_ancestors`): the way up from a namespace that has a parent ends at the root,
  after as many steps as the namespace is deep, and one more if its path ends with a separator.

  Nodes keep no level, so nothing in the tree itself says that the way up ends.  Its PATH does:

  1. A parent stands at the path one step up, and it is the root or has a parent in turn
     (`SpacesBuilt.attached_of_parent`), since every namespace is settled and no walk up is stuck half-way.
  2. So the number of paths above is a level that falls by one with each step, and the way up has that many
     steps (`SpacesBuilt.ascends`).
  3. What this number has to do with names is a matter of texts alone (`Path.length_lineage`).
-/
import Docset.Proofs.Name.Depth
import Docset.Proofs.Namespace.Keys
import Docset.Proofs.Walks

namespace Docset

open Build

namespace SpacesBuilt

variable {s t : Store} {d : SetId}

/-- The root has no parent. -/
theorem root_free (h : SpacesBuilt d s t) : (t.node ⟨s.nodes.size⟩).parent = none := by
  cases hparent : (t.node ⟨s.nodes.size⟩).parent with
  | none => rfl
  | some m =>
    have hup := (h.forest.above _ h.forest.root_made m hparent).2
    rw [h.forest.root_path, Path.parentKey_root] at hup
    cases hup

/-- The way up from a namespace with a parent ends at the root, and it has a step for each path above. -/
theorem ascends (h : SpacesBuilt d s t) {n : NodeId} (hn : n ∈ t.madeSince s.nodes.size)
    (hparent : (t.node n).parent.isSome = true) :
    t.Ascends ⟨s.nodes.size⟩ n (t.ancestors n) ∧
      (t.ancestors n).length = (Path.lineage (t.node n).path).length := by
  have hlevel : (Path.lineage (t.node ⟨s.nodes.size⟩).path).length = 0 := by
    rw [h.forest.root_path]
    rfl
  have hup : ∀ x, t.Attached s.nodes.size x → x ≠ ⟨s.nodes.size⟩ →
      ∃ m, t.Attached s.nodes.size m ∧ (t.node x).parent = some m ∧
        (Path.lineage (t.node x).path).length = (Path.lineage (t.node m).path).length + 1 := by
    rintro x ⟨hx, hlinked⟩ hroot
    obtain ⟨m, hm⟩ := Option.isSome_iff_exists.1 (hlinked.resolve_left hroot)
    refine ⟨m, h.attached_of_parent hx hm, hm, ?_⟩
    rw [Path.lineage_eq, (h.forest.above x hx m hm).2]
    rfl
  exact Store.ancestors_of_level h.root_free hlevel hup ⟨hn, Or.inr hparent⟩

end SpacesBuilt

/-- **The way up from a namespace** that has a parent ends at the root of the set.  It has as many steps as
    the namespace is deep, and one more if the path ends with a separator. -/
theorem buildSpaces_ancestors {s : Store} {d : SetId} (hcode : s.DescribesCode d)
    (hkinds : s.FiledByKind d) :
    Ensures (buildSpaces d) s fun _ t => ∃ code, (t.docSet d).code = some code ∧
      ∀ n ∈ Index.nodes (t.index d Tree.spaces.indexName), (t.node n).parent.isSome = true →
        t.Ascends code.spaceRoot n (t.ancestors n) ∧
        (t.ancestors n).length =
          if Path.EndsOpen (t.node n).path then (t.node n).depth + 1 else (t.node n).depth := by
  refine (buildSpaces_ensures hcode hkinds).mono fun _ t h => ?_
  obtain ⟨code, hcode⟩ := Option.isSome_iff_exists.1 hcode
  refine ⟨{ code with spaceRoot := ⟨s.nodes.size⟩ }, ?_, ?_⟩
  · rw [h.code, hcode]
    rfl
  · intro n hn hparent
    rw [h.forest.registry.nodes_eq] at hn
    obtain ⟨hascends, hlength⟩ := h.ascends hn hparent
    refine ⟨hascends, ?_⟩
    obtain ⟨m, hm⟩ := Option.isSome_iff_exists.1 hparent
    rw [hlength, Path.length_lineage _ _ (h.forest.above n hn m hm).2]
    rfl

/-- A class in `A\B\`, whose last name is empty: its namespace has two names, and three namespaces above
    it. -/
theorem buildSpaces_ancestors_open :
    let s := Store.ofDeclared [.declare .classType "\\X" "" (.path "A\\B\\") .unset]
    s.DescribesCode ⟨0⟩ ∧ s.FiledByKind ⟨0⟩ ∧
      Ensures (buildSpaces ⟨0⟩) s fun _ t =>
        ∃ n ∈ Index.nodes (t.index ⟨0⟩ Tree.spaces.indexName), (t.node n).path = "A\\B\\" ∧
          (t.node n).parent.isSome = true ∧ (t.node n).depth = 2 ∧ (t.ancestors n).length = 3 := by
  intro s
  have hcode : s.DescribesCode ⟨0⟩ := by decide
  have hkinds : s.FiledByKind ⟨0⟩ := by decide
  refine ⟨hcode, hkinds, ?_⟩
  have hboth := (buildSpaces_ensures hcode hkinds).and (buildSpaces_ancestors hcode hkinds)
  refine hboth.mono fun _ t h => ?_
  obtain ⟨hbuilt, code, -, hancestors⟩ := h
  have hdeclared : s.DeclaresSpace ⟨0⟩ "A\\B\\" := ⟨⟨1⟩, by decide, by decide⟩
  obtain ⟨n, hn, hpath⟩ := hbuilt.forest.registry.mem_keys.1 (hbuilt.named _ hdeclared)
  have hparent : (t.node n).parent.isSome = true := by
    have hup : Path.parentKey (t.node n).path = .ok "A\\B" := by
      rw [hpath]
      decide
    obtain ⟨m, -, hm, -⟩ := hbuilt.forest.parent_of_settled hn (hbuilt.settled n hn) hup
    rw [hm]
    rfl
  have hdepth : (t.node n).depth = 2 := by
    rw [Node.depth, hpath]
    decide
  have hmem : n ∈ Index.nodes (t.index ⟨0⟩ Tree.spaces.indexName) := by
    rw [hbuilt.forest.registry.nodes_eq]
    exact hn
  have hlength := (hancestors n hmem hparent).2
  rw [hpath, hdepth, if_pos (by decide)] at hlength
  exact ⟨n, hmem, hpath, hparent, hdepth, hlength⟩

end Docset
