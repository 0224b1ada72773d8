/-
  Who is filed at which package.

  **The theorem** (`buildPackages_members`): no element is lost and none is listed twice.  Every file and
  every declared element but enums is bound to a registered package, and what a package holds of a kind is
  exactly the elements of that kind that are bound to it, in the order in which files declare them.

  Tags may name one place by two paths, so an element may be bound to a package of another path than it
  names.  That does no harm here: the PLACE that an element names is the key by which it is filed (`Filed`),
  a place belongs to one package at most, and an element that comes again names the same place again.
-/
import Docset.Proofs.Members
import Docset.Proofs.Package.Named

namespace Docset

open Build

/-- The place of the package that an element's tags name. -/
def Store.namedPlace (s : Store) (e : ElementId) : List String := Path.place (s.element e).packagePath

/-- **A run of binding** files every element at the place that its tags name. -/
theorem bindPackages_filed {d : SetId} {index : String} {base : Nat} {s₀ s₁ s : Store}
    {es : List ElementId} (hinput : Store.SameInput d s₁ s₀)
    (h : PackagesBound d index base s₀ (es.map fun e => (s₀.element e).packagePath) [] s)
    (hfiled : Filed .packages base s₁ s₁.namedPlace Path.place [] s)
    (hkinds : ∀ e ∈ es, (s₀.element e).kind ∈ Tree.packages.kinds) :
    Ensures (bindPackages d index es) s fun _ t =>
      PackagesBound d index base s₀ (es.map fun e => (s₀.element e).packagePath) es t ∧
        Filed .packages base s₁ s₁.namedPlace Path.place es t := by
  refine ensures_forEach (fun done t =>
    PackagesBound d index base s₀ (es.map fun e => (s₀.element e).packagePath) done t ∧
      Filed .packages base s₁ s₁.namedPlace Path.place done t) ⟨h, hfiled⟩ ?_
  rintro done e rest t hes ⟨ht, htfiled⟩
  have he : e ∈ es := by
    rw [hes]
    exact List.mem_append_right _ List.mem_cons_self
  refine (ht.step hes (hkinds e he)).mono fun _ u hu => ?_
  obtain ⟨hbound, v, n, rfl, hgrow, hn, hplace⟩ := hu
  have hspot : ∀ x ∈ v.madeSince base, ∀ y ∈ v.madeSince base, v.placeOf x = v.placeOf y → x = y :=
    fun x hx y hy => hgrow.forest.eq_of_place hx hy
  rw [hinput.packagePath] at hplace
  exact ⟨hbound, (htfiled.grow hgrow.toExtends hspot).bind hn hplace fun x hx => hspot x hx n hn⟩

/-- With the root alone, nothing is filed. -/
theorem Filed.freshPackages (s : Store) (d : SetId) :
    Filed .packages s.nodes.size s s.namedPlace Path.place [] (s.freshPackages d) := by
  refine .start rfl ?_ ?_
  · intro n hn
    have hsize : (s.freshPackages d).nodes.size = s.nodes.size + 1 := Store.size_addNode s .packageRoot
    rw [Store.madeSince_of_size_succ hsize, List.mem_singleton] at hn
    have hnode : (s.freshPackages d).node ⟨s.nodes.size⟩ = .packageRoot :=
      Store.node_addNode_self s .packageRoot
    rw [hn, hnode]
    rfl
  · intro n hn
    have hne : n ≠ ⟨s.nodes.size⟩ := by
      rintro rfl
      exact Nat.lt_irrefl _ hn
    exact Store.node_addNode_of_ne hne

/-- **Every build** files every element at the place that its tags name, and changes nothing else about
    elements, nor any node of before. -/
theorem buildPackages_filed {s : Store} {d : SetId} (hcode : s.DescribesCode d)
    (hkinds : s.FiledByKind d) (hfiles : s.FilesAreFiles d) :
    Ensures (buildPackages d) s fun _ t =>
      Filed .packages s.nodes.size s s.namedPlace Path.place (s.packaged d) t := by
  rw [ensures_buildPackages hcode]
  have hfresh := sameInput_freshPackages s d
  have hall : ∀ e ∈ s.packaged d, ((s.freshPackages d).element e).kind ∈ Tree.packages.kinds := by
    intro e he
    rw [hfresh.kind]
    exact hkinds.kind_of_mem_packaged hfiles he
  refine (bindPackages_filed hfresh (PackagesBound.fresh s d _) (Filed.freshPackages s d) hall).mono ?_
  rintro _ t ⟨-, ht⟩
  exact ⟨ht.bound, ht.filed, ht.free, ht.same, ht.old⟩

/-! ## Packages and what they hold -/

section Built

variable {s t : Store} {d : SetId}

/-- After a build, an element that belongs to packages is bound to the package at the place that it names,
    and to no other. -/
theorem PackagesBuilt.package_eq_iff (h : PackagesBuilt d s t) {e : ElementId} (he : e ∈ s.packaged d)
    {n : NodeId} (hn : n ∈ t.madeSince s.nodes.size) :
    (t.element e).package = .node n ↔ s.namedPlace e = t.placeOf n := by
  obtain ⟨m, hm, hpackage, hplace⟩ := h.bound e he
  rw [hpackage]
  constructor
  · intro hmn
    cases hmn
    exact hplace.symm
  · intro hnamed
    rw [h.forest.eq_of_place hm hn (hplace.trans hnamed)]

/-- What a package holds of a kind: the elements of that kind, in order, that are bound to it. -/
theorem PackagesBuilt.collection (h : PackagesBuilt d s t)
    (hfiled : Filed .packages s.nodes.size s s.namedPlace Path.place (s.packaged d) t) {n : NodeId}
    (hn : n ∈ t.madeSince s.nodes.size) {kind : Kind} (hkind : kind ∈ Tree.packages.kinds) :
    (t.node n).collection kind = .ok (((s.packaged d).filter fun e => (s.element e).kind = kind).filter
      fun e => (t.element e).package = .node n) := by
  rw [hfiled.collection hn (h.forest.registry.tree_eq n hn) hkind]
  refine congrArg Except.ok (List.filter_congr fun e he => ?_)
  exact decide_eq_decide.2 (h.package_eq_iff (List.mem_filter.1 he).1 hn).symm

end Built

/-- **Who is filed at which package**: every file, constant, function, class, interface and trait is bound
    to a registered package.  A registered package holds exactly the files that are bound to it, in order,
    and of every other kind exactly the elements that files declare under it and that are bound to the
    package, file by file.  No enum is filed anywhere, and none is bound anew. -/
theorem buildPackages_members {s : Store} {d : SetId} (hcode : s.DescribesCode d)
    (hkinds : s.FiledByKind d) (hfiles : s.FilesAreFiles d) :
    Ensures (buildPackages d) s fun _ t =>
      (∀ e ∈ s.packaged d, ∃ n, (t.element e).package = .node n ∧
        ∃ p, (t.index d Tree.packages.indexName).get? p = some (.node n)) ∧
      (∀ p n, (t.index d Tree.packages.indexName).get? p = some (.node n) →
        (t.node n).collection .file =
          .ok ((s.files d).values.filter fun file => (t.element file).package = .node n) ∧
        ∀ kind ∈ packagedKinds, (t.node n).collection kind =
          .ok ((s.files d).values.flatMap fun file =>
            (s.membersOf file kind).filter fun e => (t.element e).package = .node n)) ∧
      ∀ e, (s.element e).kind = .enumType → (t.element e).package = (s.element e).package ∧
        ∀ p n, (t.index d Tree.packages.indexName).get? p = some (.node n) →
          ∀ kind, e ∉ (t.node n).members.ofKind kind := by
  have hboth := (buildPackages_ensures hcode hkinds hfiles).and (buildPackages_filed hcode hkinds hfiles)
  refine hboth.mono ?_
  rintro _ t ⟨h, hfiled⟩
  have hmade : ∀ p n, (t.index d Tree.packages.indexName).get? p = some (.node n) →
      n ∈ t.madeSince s.nodes.size := by
    intro p n hget
    obtain ⟨m, hm, -, heq⟩ := h.forest.registry.of_get? hget
    cases heq
    exact hm
  refine ⟨?_, ?_, ?_⟩
  · intro e he
    obtain ⟨n, hn, hpackage, -⟩ := h.bound e he
    exact ⟨n, hpackage, _, h.forest.registry.get?_path hn⟩
  · intro p n hget
    have hn := hmade p n hget
    refine ⟨?_, ?_⟩
    · rw [h.collection hfiled hn (by decide), Store.filter_packaged_file hkinds hfiles]
    · intro kind hkind
      have hheld : ∀ kind ∈ packagedKinds, kind ∈ Tree.packages.kinds := by decide
      rw [h.collection hfiled hn (hheld kind hkind), Store.filter_packaged hkinds hfiles hkind,
        List.filter_flatMap]
  · intro e henum
    -- An enum has no kind that packages hold, so it is not among the elements that are bound.
    have hout : e ∉ s.packaged d := by
      intro he
      have hkind := hkinds.kind_of_mem_packaged hfiles he
      rw [henum] at hkind
      exact absurd hkind (by decide)
    refine ⟨congrArg Element.package (hfiled.free e hout), ?_⟩
    intro p n hget kind he
    rw [hfiled.filed n (hmade p n hget), Store.ofKind_listing] at he
    exact hout (List.mem_filter.1 (List.mem_filter.1 he).1).1

/-- A file listed under two paths, with a class in a package whose second name is empty, and an enum: the
    class comes twice and is filed twice at one package, and the enum is left alone. -/
theorem buildPackages_members_twice :
    let s := (Store.ofDeclared [
      (Element.declare .classType "\\X" "" (.path "") .unset).addTag ⟨"package", "A\\\\B"⟩,
      Element.declare .enumType "\\E" "" (.path "") .unset]).updateCode ⟨0⟩ fun code =>
        { code with files := code.files.put "b.php" ⟨0⟩ }
    s.DescribesCode ⟨0⟩ ∧ s.FiledByKind ⟨0⟩ ∧ s.FilesAreFiles ⟨0⟩ ∧
      Ensures (buildPackages ⟨0⟩) s fun _ t => ∃ n, (t.element ⟨1⟩).package = .node n ∧
        (t.node n).collection .classType = .ok [⟨1⟩, ⟨1⟩] ∧ (t.element ⟨2⟩).package = .unset := by
  intro s
  have hcode : s.DescribesCode ⟨0⟩ := by decide
  have hkinds : s.FiledByKind ⟨0⟩ := by decide
  have hfiles : s.FilesAreFiles ⟨0⟩ := by decide
  refine ⟨hcode, hkinds, hfiles, (buildPackages_members hcode hkinds hfiles).mono fun _ t h => ?_⟩
  obtain ⟨hbound, hheld, henums⟩ := h
  obtain ⟨n, hpackage, p, hget⟩ := hbound ⟨1⟩ (by decide)
  refine ⟨n, hpackage, ?_, (henums ⟨2⟩ (by decide)).1⟩
  have hlisted : (s.files ⟨0⟩).values = [⟨0⟩, ⟨0⟩] := by decide
  have hclasses : s.membersOf ⟨0⟩ .classType = [⟨1⟩] := by decide
  rw [(hheld p n hget).2 .classType (by decide), hlisted]
  simp [hclasses, hpackage]

end Docset
