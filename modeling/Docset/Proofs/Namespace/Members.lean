/-
  Who is filed at which namespace.

  **The theorem** (`buildSpaces_members`): every declared element is bound to the namespace registered under
  the path that it named BEFORE the build, and what a namespace holds of a kind is exactly the elements of
  that kind that named its path, in the order in which files declare them.

  A build reads the references that it writes: an element that is listed twice has been bound by the time it
  comes again.  But it is bound to the node with the path that it named, and what it names then is that path
  (`Filed.namedSpace_eq`), so the key by which elements are filed does not change in a run.
-/
import Docset.Proofs.Members
import Docset.Proofs.Namespace.Keys

namespace Docset

open Build

variable {s t : Store} {d : SetId} {done : List ElementId} {e : ElementId}

/-- Whatever is done, an element names the namespace that it named at first. -/
theorem Filed.namedSpace_eq (h : Filed .spaces s.nodes.size s s.namedSpace id done t)
    (hresolves : s.Resolves e) : t.namedSpace e = s.namedSpace e := by
  by_cases he : e ∈ done
  · obtain ⟨n, -, hbound, hpath⟩ := h.bound e he
    have hspace : (t.element e).space = .node n := Element.space_of_boundTo hbound
    have hnamed : (t.node n).path = s.namedSpace e := hpath
    rw [Store.namedSpace, Store.spacePath, hspace]
    show Path.orRoot (t.node n).path = _
    rw [hnamed]
    exact Path.orRoot_orRoot _
  · rw [Store.namedSpace, Store.namedSpace, Store.spacePath, Store.spacePath, h.free e he]
    cases hspace : (s.element e).space with
    | path text => rfl
    | node n => exact congrArg (fun n => Path.orRoot (Node.path n)) (h.old n (hresolves n hspace))

/-- **A run of binding** files every element at the namespace that it named. -/
theorem bindSpaces_filed {index : String} {s₀ u : Store} {es : List ElementId}
    (hinput : Store.SameInput d s s₀) (h : SpacesBound d index s.nodes.size s₀ [] u)
    (hfiled : Filed .spaces s.nodes.size s s.namedSpace id [] u)
    (hkinds : ∀ e ∈ es, (s.element e).kind ∈ Tree.spaces.kinds) (hresolves : ∀ e ∈ es, s.Resolves e) :
    Ensures (bindSpaces d index es) u fun _ t => SpacesBound d index s.nodes.size s₀ es t ∧
      Filed .spaces s.nodes.size s s.namedSpace id es t := by
  refine ensures_forEach (fun done t => SpacesBound d index s.nodes.size s₀ done t ∧
    Filed .spaces s.nodes.size s s.namedSpace id done t) ⟨h, hfiled⟩ ?_
  rintro done e rest t hes ⟨ht, htfiled⟩
  have he : e ∈ es := by
    rw [hes]
    exact List.mem_append_right _ List.mem_cons_self
  have hkind : (s₀.element e).kind ∈ Tree.spaces.kinds := by
    rw [hinput.kind]
    exact hkinds e he
  have hkind_t : (t.element e).kind ∈ Tree.spaces.kinds := by
    rw [ht.input.kind]
    exact hkind
  refine ((ht.step hkind).and (bindSpace_ensures ht.forest hkind_t)).mono fun _ u hu => ?_
  obtain ⟨hbound, v, n, rfl, hforest, hn, hpath, hmade⟩ := hu
  have hgrow : Store.Extends d s.nodes.size t v := by
    rcases hmade with rfl | ⟨-, rfl⟩
    · exact .refl d _ _
    · exact .withSpace ht.forest.registry.base_le d index _
  have hspot : ∀ x ∈ v.madeSince s.nodes.size, ∀ y ∈ v.madeSince s.nodes.size,
      (v.node x).path = (v.node y).path → x = y := fun x hx y hy => hforest.registry.eq_of_path hx hy
  rw [htfiled.namedSpace_eq (hresolves e he)] at hpath
  exact ⟨hbound, (htfiled.grow hgrow hspot).bind hn hpath fun x hx => hspot x hx n hn⟩

/-- With the root alone, nothing is filed. -/
theorem Filed.rootedSpaces (s : Store) (d : SetId) :
    Filed .spaces s.nodes.size s s.namedSpace id [] (s.rootedSpaces d) := by
  have hnode : ∀ n, (s.rootedSpaces d).node n = (s.addNode .spaceRoot).1.node n := by
    intro n
    rw [Store.node, Store.node, nodes_rootedSpaces]
  refine .start (elements_rootedSpaces s d) ?_ ?_
  · intro n hn
    have hsize : (s.rootedSpaces d).nodes.size = s.nodes.size + 1 := by
      rw [nodes_rootedSpaces]
      exact Store.size_addNode s .spaceRoot
    rw [Store.madeSince_of_size_succ hsize, List.mem_singleton] at hn
    rw [hnode, hn, Store.node_addNode_self]
    rfl
  · intro n hn
    have hne : n ≠ ⟨s.nodes.size⟩ := by
      rintro rfl
      exact Nat.lt_irrefl _ hn
    rw [hnode, Store.node_addNode_of_ne hne]

/-- **Every build** files every declared element at the namespace that it named, and changes nothing else
    about elements, nor any node of before. -/
theorem buildSpaces_filed (hcode : s.DescribesCode d) (hkinds : s.FiledByKind d)
    (hresolved : s.Resolved d) :
    Ensures (buildSpaces d) s fun _ t => Filed .spaces s.nodes.size s s.namedSpace id
      (s.declared d Tree.spaces.kinds) t := by
  rw [ensures_buildSpaces hcode]
  have hall : ∀ e ∈ s.declared d Tree.spaces.kinds, (s.element e).kind ∈ Tree.spaces.kinds :=
    fun e he => hkinds.kind_of_mem_declared he
  refine (bindSpaces_filed (sameInput_freshSpaces s d) (SpacesBound.rooted s d)
    (Filed.rootedSpaces s d) hall hresolved).mono ?_
  rintro _ t ⟨ht, htfiled⟩
  rw [ht.forest.registry.nodes_eq]
  refine (linkSpaces_ensures (by decide) _ t ht.forest fun _ hn => hn).mono fun apart u hu => ?_
  have hlinked := htfiled.grow hu.grow.toExtends fun x hx y hy =>
    hu.grow.forest.registry.eq_of_path hx hy
  exact ⟨hlinked.bound, hlinked.filed, hlinked.free, hlinked.same, hlinked.old⟩

/-- **Who is filed at which namespace**: every constant, function, class, interface, trait and enum that
    files declare is bound to the namespace registered under the path that it named before; and a
    registered namespace holds of each kind exactly the elements that named its path, file by file, in the
    order in which a file declares them. -/
theorem buildSpaces_members (hcode : s.DescribesCode d) (hkinds : s.FiledByKind d)
    (hresolved : s.Resolved d) :
    Ensures (buildSpaces d) s fun _ t =>
      (∀ e ∈ s.declared d Tree.spaces.kinds, ∃ n, (t.element e).space = .node n ∧
        (t.index d Tree.spaces.indexName).get? (s.namedSpace e) = some (.node n)) ∧
      ∀ p n, (t.index d Tree.spaces.indexName).get? p = some (.node n) →
        ∀ kind ∈ Tree.spaces.kinds, (t.node n).collection kind =
          .ok ((s.files d).values.flatMap fun file =>
            (s.membersOf file kind).filter fun e => s.namedSpace e = p) := by
  have hboth := (buildSpaces_ensures hcode hkinds).and (buildSpaces_filed hcode hkinds hresolved)
  refine hboth.mono ?_
  rintro _ t ⟨h, hfiled⟩
  have hregistry := h.forest.registry
  refine ⟨?_, ?_⟩
  · intro e he
    obtain ⟨n, hn, hbound, hpath⟩ := hfiled.bound e he
    have hpath : (t.node n).path = s.namedSpace e := hpath
    refine ⟨n, Element.space_of_boundTo hbound, ?_⟩
    rw [← hpath]
    exact hregistry.get?_path hn
  · intro p n hget kind hkind
    obtain ⟨m, hm, hpath, heq⟩ := hregistry.of_get? hget
    cases heq
    rw [hfiled.collection hm (hregistry.tree_eq n hm) hkind, Store.filter_declared hkinds hkind,
      List.filter_flatMap]
    show Except.ok ((s.files d).values.flatMap fun file => (s.membersOf file kind).filter
      fun e => s.namedSpace e = (t.node n).path) = _
    rw [hpath]

/-- A class bound to an old namespace `\A\B` and an enum without a namespace, in a file listed under two
    paths: the class is filed twice at the new `\A\B`, and nothing at the `\A` made above it. -/
theorem buildSpaces_members_rebound :
    let s := ((Store.ofDeclared [.declare .classType "\\A\\B\\X" "" (.node ⟨2⟩) .unset,
      .declare .enumType "\\E" "" (.path "") .unset]).addNode (.ofPath "\\A\\B")).1.updateCode ⟨0⟩
        fun code => { code with files := code.files.put "b.php" ⟨0⟩ }
    s.DescribesCode ⟨0⟩ ∧ s.FiledByKind ⟨0⟩ ∧ s.Resolved ⟨0⟩ ∧
      Ensures (buildSpaces ⟨0⟩) s fun _ t => ∃ n, (t.element ⟨1⟩).space = .node n ∧
        (t.node n).collection .classType = .ok [⟨1⟩, ⟨1⟩] ∧
        ∀ m, (t.index ⟨0⟩ Tree.spaces.indexName).get? "\\A" = some (.node m) →
          (t.node m).collection .classType = .ok [] := by
  intro s
  have hcode : s.DescribesCode ⟨0⟩ := by decide
  have hkinds : s.FiledByKind ⟨0⟩ := by decide
  have hresolved : s.Resolved ⟨0⟩ := by decide
  refine ⟨hcode, hkinds, hresolved, (buildSpaces_members hcode hkinds hresolved).mono fun _ t h => ?_⟩
  have hlisted : (s.files ⟨0⟩).values = [⟨0⟩, ⟨0⟩] := by decide
  have hclasses : s.membersOf ⟨0⟩ .classType = [⟨1⟩] := by decide
  have hnamed : s.namedSpace ⟨1⟩ = "\\A\\B" := by decide
  obtain ⟨n, hspace, hget⟩ := h.1 ⟨1⟩ (by decide)
  refine ⟨n, hspace, ?_, ?_⟩
  · rw [h.2 _ n hget .classType (by decide), hlisted]
    simp [hclasses]
  · intro m hget_m
    rw [h.2 _ m hget_m .classType (by decide), hlisted]
    simp [hclasses, hnamed]

end Docset
