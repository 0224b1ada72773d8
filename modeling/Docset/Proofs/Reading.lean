/-
  What builds read.

  Builds read the input, and one thing more: the namespace that an element names.  That is a text, or else
  the path of the node that the element was bound to by an earlier build, and then the nodes of that build
  are read too.

  * `SameReading` says that a later store reads the same.  Every pass leaves the reading as it was, and so
    does a full build (`Compiler.compile_reading`).  Packages do not touch namespaces at all.  Namespaces
    do rebind every element, but to the namespace that it names (`Filed.namedSpace_eq`).
  * `SameCode` says that two sets, of whatever stores, read the same.  It speaks of the files of the
    sets, of what is declared in them and of the members that this owns, and of no other element.
-/
import Docset.Proofs.Compile
import Docset.Proofs.Namespace.Members
import Docset.Proofs.Package.Members

namespace Docset

open Build

/-- The stores hold one input, and their elements name the same namespaces. -/
structure Store.SameReading (d : SetId) (s t : Store) : Prop where
  input : Store.SameInput d s t
  space : ∀ e ∈ s.declared d Tree.spaces.kinds, t.namedSpace e = s.namedSpace e
  resolved : t.Resolved d

namespace Store.SameReading

variable {d : SetId} {s t u : Store}

theorem trans (hst : SameReading d s t) (htu : SameReading d t u) : SameReading d s u where
  input := hst.input.trans htu.input
  space := by
    intro e he
    rw [← hst.space e he]
    refine htu.space e ?_
    rw [hst.input.declared]
    exact he
  resolved := htu.resolved

theorem promised (h : SameReading d s t) (hs : s.Promised d) : t.Promised d := h.input.promised hs

/-- Whoever leaves references alone, and the paths of all nodes that were made, leaves the reading
    alone. -/
theorem of_space (hinput : SameInput d s t) (hresolved : s.Resolved d)
    (hspace : ∀ e, (t.element e).space = (s.element e).space) (hsize : s.nodes.size ≤ t.nodes.size)
    (hpath : ∀ n : NodeId, n.row < s.nodes.size → (t.node n).path = (s.node n).path) :
    SameReading d s t where
  input := hinput
  space := by
    intro e he
    rw [Store.namedSpace, Store.namedSpace, Store.spacePath, Store.spacePath, hspace]
    cases hs : (s.element e).space with
    | path text => rfl
    | node n => exact congrArg Path.orRoot (hpath n (hresolved e he n hs))
  resolved := by
    intro e he n hn
    rw [hinput.declared] at he
    rw [hspace] at hn
    exact Nat.lt_of_lt_of_le (hresolved e he n hn) hsize

/-- Changes that no build notices leave the reading alone. -/
theorem of_inert (h : Inert d s t) (hresolved : s.Resolved d) : SameReading d s t := by
  refine of_space h.input hresolved h.space (Nat.le_of_eq (congrArg Table.size h.nodes.symm)) ?_
  intro n _
  rw [Store.node, Store.node, h.nodes]

/-- Growth of a tree leaves the reading alone. -/
theorem of_extends {base : Nat} (h : Store.Extends d base s t) (hresolved : s.Resolved d) :
    SameReading d s t := by
  refine of_space h.sameInput hresolved (fun e => ?_) h.size_le fun n hn => ?_
  · rw [Store.element, Store.element, h.elements]
  · by_cases hbase : n.row < base
    · rw [h.old n hbase]
    · exact h.path n (Store.mem_madeSince.2 ⟨Nat.le_of_not_lt hbase, hn⟩)

/-! ### Single changes -/

theorem of_addNode (hresolved : s.Resolved d) (x : Node) : SameReading d s (s.addNode x).1 := by
  refine of_space (.of_eq rfl rfl) hresolved (fun _ => rfl) ?_ fun n hn => ?_
  · rw [Store.size_addNode]
    exact Nat.le_succ _
  · have hne : n ≠ ⟨s.nodes.size⟩ := by
      rintro rfl
      exact Nat.lt_irrefl _ hn
    rw [Store.node_addNode_of_ne hne]

theorem of_addChild (hresolved : s.Resolved d) (m n : NodeId) (key : String) :
    SameReading d s (s.addChild m key n) := by
  refine of_space (.of_eq rfl rfl) hresolved (fun _ => rfl) ?_ fun x _ => ?_
  · rw [Store.addChild, Store.size_updateNode_max, Store.size_updateNode_max]
    omega
  · exact Store.path_addChild s m key n x

theorem of_setIndex (hresolved : s.Resolved d) (name : String) (index : Index) :
    SameReading d s (s.setIndex d name index) :=
  of_space (.setIndex s d name index) hresolved (fun _ => rfl) (Nat.le_refl _) fun _ _ => rfl

theorem of_openIndex (hresolved : s.Resolved d) (name : String) :
    SameReading d s (s.openIndex d name .empty) := by
  rcases s.openIndex_cases d name .empty with heq | heq
  · rw [heq]
    exact ⟨.refl d s, fun _ _ => rfl, hresolved⟩
  · rw [heq]
    exact of_setIndex hresolved name .empty

theorem of_updateCode (hresolved : s.Resolved d) {f : CodeBase → CodeBase}
    (hf : ∀ code, (f code).files = code.files) : SameReading d s (s.updateCode d f) :=
  of_space (.updateCode s d hf) hresolved (fun _ => rfl) (Nat.le_refl _) fun _ _ => rfl

/-- Bindings but those to namespaces leave the reading alone. -/
theorem of_bindAt (hresolved : s.Resolved d) (e : ElementId) (n : NodeId) {bind : Element → Element}
    (hfixed : ∀ x, (bind x).fixed = x.fixed) (hspace : ∀ x, (bind x).space = x.space) :
    SameReading d s (s.bindAt e n bind) := by
  refine of_space (sameInput_bindAt d s e n hfixed) hresolved (fun x => ?_) (size_le_bindAt s e n bind).1
    fun m _ => (sameNodes_bindAt s e n bind).path m
  rw [element_bindAt]
  split
  · exact hspace _
  · rfl

/-! ### Whole trees -/

/-- A build of the namespaces leaves what builds read. -/
theorem of_spaces (h : SpacesBuilt d s t) (hresolved : s.Resolved d)
    (hfiled : Filed .spaces s.nodes.size s s.namedSpace id (s.declared d Tree.spaces.kinds) t) :
    SameReading d s t where
  input := h.input
  space := fun e he => hfiled.namedSpace_eq (hresolved e he)
  resolved := by
    intro e he n hn
    rw [h.input.declared] at he
    obtain ⟨m, hm, hbound, -⟩ := hfiled.bound e he
    rw [Element.space_of_boundTo hbound] at hn
    cases hn
    exact (Store.mem_madeSince.1 hm).2

/-- A build of the packages leaves what builds read. -/
theorem of_packages (h : PackagesBuilt d s t) (hresolved : s.Resolved d)
    (hfiled : Filed .packages s.nodes.size s s.namedPlace Path.place (s.packaged d) t) :
    SameReading d s t := by
  refine of_space h.input hresolved (fun e => ?_) h.forest.registry.base_le fun n hn => ?_
  · have hsame := congrArg Element.space (hfiled.same e)
    exact hsame
  · rw [hfiled.old n hn]

end Store.SameReading

/-! ## Full builds -/

section Compile

variable {d : SetId} {s : Store}

theorem buildSpaces_reading (hs : s.Promised d) (hresolved : s.Resolved d) :
    Ensures (buildSpaces d) s fun _ t => Store.SameReading d s t := by
  refine ((buildSpaces_ensures hs.code hs.kinds).and (buildSpaces_filed hs.code hs.kinds hresolved)).mono ?_
  rintro _ t ⟨hbuilt, hfiled⟩
  exact .of_spaces hbuilt hresolved hfiled

theorem buildPackages_reading (hs : s.Promised d) (hresolved : s.Resolved d) :
    Ensures (buildPackages d) s fun _ t => Store.SameReading d s t := by
  refine ((buildPackages_ensures hs.code hs.kinds hs.files).and
    (buildPackages_filed hs.code hs.kinds hs.files)).mono ?_
  rintro _ t ⟨hbuilt, hfiled⟩
  exact .of_packages hbuilt hresolved hfiled

theorem Pass.lasting_reading (d : SetId) :
    Pass.Lasting d (fun s => s.Promised d ∧ s.Resolved d) (Store.SameReading d) where
  trans := Store.SameReading.trans
  inert := fun hs h => .of_inert h hs.2
  promise := fun hs h => ⟨h.promised hs.1, h.resolved⟩

/-- **Every pass of the library leaves what builds read.** -/
theorem Pass.keeps_reading {p : Pass} (hp : p ∈ Pass.builtin) :
    p.Keeps d (fun s => s.Promised d ∧ s.Resolved d) (Store.SameReading d) := by
  rintro s ⟨hs, hresolved⟩
  rcases List.mem_cons.1 hp with rfl | hp
  · exact ensures_bind.2 ((indexElements_ensures s.nodes.size).mono fun _ _ ht =>
      ensures_pure.2 ⟨rfl, .of_extends ht hresolved⟩)
  rcases List.mem_cons.1 hp with rfl | hp
  · refine ensures_bind.2 (ensures_mapError.2 ?_)
    exact (buildSpaces_reading hs hresolved).mono fun _ _ ht => ensures_pure.2 ⟨rfl, ht⟩
  rcases List.mem_cons.1 hp with rfl | hp
  · refine ensures_bind.2 (ensures_mapError.2 ?_)
    exact (buildPackages_reading hs hresolved).mono fun _ _ ht => ensures_pure.2 ⟨rfl, ht⟩
  · rw [List.mem_singleton.1 hp]
    exact ensures_bind.2 (removeSources_inert.mono fun _ _ ht =>
      ensures_pure.2 ⟨rfl, .of_inert ht hresolved⟩)

/-- A full build leaves what builds read. -/
theorem Compiler.compile_reading {c : Compiler} (hc : ∀ p ∈ c.given, p ∈ Pass.builtin)
    (config : Option Config) (hs : s.Promised d) (hresolved : s.Resolved d) :
    Ensures (c.compile d config) s fun result t => result = d ∧ Store.SameReading d s t :=
  c.compile_keeps (Pass.lasting_reading d) (fun p hp => Pass.keeps_reading (hc p hp)) config
    ⟨hs, hresolved⟩

end Compile

/-! ## Two sets -/

theorem Store.SameInput.indexed {d : SetId} {s t : Store} (h : SameInput d s t) :
    t.indexed d = s.indexed d := by
  have howned : ∀ e, t.owned e = s.owned e := by
    intro e
    rw [Store.owned, Store.owned, h.kind]
    exact congrArg (List.flatMap · _) (funext fun kind => h.membersOf e kind)
  rw [Store.indexed, Store.indexed, h.declared]
  exact congrArg (List.flatMap · _) (funext fun e => congrArg (e :: ·) (howned e))

/-- Whether an element is a file of the set, or declared in one. -/
def Store.Lists (s : Store) (d : SetId) (e : ElementId) : Prop :=
  e ∈ (s.files d).values ∨ e ∈ s.declared d Tree.spaces.kinds

theorem Store.declaredIn_subset (s : Store) {kinds more : List Kind} (hkinds : kinds ⊆ more)
    (file : ElementId) : s.declaredIn kinds file ⊆ s.declaredIn more file := by
  intro e he
  obtain ⟨kind, hkind, he⟩ := List.mem_flatMap.1 he
  exact List.mem_flatMap.2 ⟨kind, hkinds hkind, he⟩

theorem Store.declared_subset (s : Store) (d : SetId) {kinds more : List Kind} (hkinds : kinds ⊆ more) :
    s.declared d kinds ⊆ s.declared d more := by
  intro e he
  obtain ⟨file, hfile, he⟩ := List.mem_flatMap.1 he
  exact List.mem_flatMap.2 ⟨file, hfile, s.declaredIn_subset hkinds file he⟩

theorem Store.lists_of_packaged {s : Store} {d : SetId} {e : ElementId} (he : e ∈ s.packaged d) :
    s.Lists d e := by
  obtain ⟨file, hfile, he⟩ := List.mem_flatMap.1 he
  rcases List.mem_cons.1 he with rfl | he
  · exact Or.inl hfile
  · have hspaces : packagedKinds ⊆ Tree.spaces.kinds := by decide
    exact Or.inr (List.mem_flatMap.2 ⟨file, hfile, s.declaredIn_subset hspaces file he⟩)

/-- Whether an element is a file of the set, or declared in one, or a member that a declared one owns. -/
def Store.Known (s : Store) (d : SetId) (e : ElementId) : Prop :=
  e ∈ (s.files d).values ∨ e ∈ s.indexed d

theorem Store.SameInput.known {d : SetId} {s t : Store} (h : SameInput d s t) {e : ElementId} :
    t.Known d e ↔ s.Known d e := by
  rw [Store.Known, Store.Known, h.files, h.indexed]

/-- Two sets have the same files and elements, which name the same namespaces.  Bindings, source text and
    all else that the stores hold may differ. -/
structure Store.SameCode (s₁ : Store) (d₁ : SetId) (s₂ : Store) (d₂ : SetId) : Prop where
  files : (s₁.docSet d₁).code.map CodeBase.files = (s₂.docSet d₂).code.map CodeBase.files
  element : ∀ e, s₁.Known d₁ e → (s₁.element e).fixed = (s₂.element e).fixed
  space : ∀ e ∈ s₁.declared d₁ Tree.spaces.kinds, s₁.namedSpace e = s₂.namedSpace e
  resolved₁ : s₁.Resolved d₁
  resolved₂ : s₂.Resolved d₂

theorem Store.known_of_declared {s : Store} {d : SetId} {e : ElementId}
    (he : e ∈ s.declared d Tree.spaces.kinds) : s.Known d e :=
  Or.inr (List.mem_flatMap.2 ⟨e, he, List.mem_cons_self⟩)

theorem Store.known_of_packaged {s : Store} {d : SetId} {e : ElementId} (he : e ∈ s.packaged d) :
    s.Known d e := by
  rcases Store.lists_of_packaged he with hfile | hdeclared
  · exact Or.inl hfile
  · exact Store.known_of_declared hdeclared

namespace Store.SameCode

variable {d₁ d₂ : SetId} {s₁ s₂ t₁ t₂ : Store}

theorem files_eq (h : s₁.SameCode d₁ s₂ d₂) : s₁.files d₁ = s₂.files d₂ := by
  have hfiles := h.files
  rw [Store.files, Store.files]
  cases hcode₁ : (s₁.docSet d₁).code with
  | none =>
    cases hcode₂ : (s₂.docSet d₂).code with
    | none => rfl
    | some code₂ => rw [hcode₁, hcode₂] at hfiles; cases hfiles
  | some code₁ =>
    cases hcode₂ : (s₂.docSet d₂).code with
    | none => rw [hcode₁, hcode₂] at hfiles; cases hfiles
    | some code₂ =>
      rw [hcode₁, hcode₂] at hfiles
      exact Option.some.inj hfiles

theorem kind (h : s₁.SameCode d₁ s₂ d₂) {e : ElementId} (he : s₁.Known d₁ e) :
    (s₁.element e).kind = (s₂.element e).kind :=
  (congrArg Element.kind (h.element e he) :)

theorem indexKey (h : s₁.SameCode d₁ s₂ d₂) {e : ElementId} (he : s₁.Known d₁ e) :
    s₁.indexKey e = s₂.indexKey e :=
  (congrArg Element.qualifiedName (h.element e he) :)

theorem membersOf (h : s₁.SameCode d₁ s₂ d₂) {e : ElementId} (he : s₁.Known d₁ e) (kind : Kind) :
    s₁.membersOf e kind = s₂.membersOf e kind :=
  (congrArg (fun e => e.members.ofKind kind) (h.element e he) :)

theorem packageName (h : s₁.SameCode d₁ s₂ d₂) {e : ElementId} (he : s₁.Known d₁ e) :
    (s₁.element e).packageName = (s₂.element e).packageName := by
  have htags : (s₁.element e).tags = (s₂.element e).tags :=
    (congrArg Element.tags (h.element e he) :)
  rw [Element.packageName, Element.packageName, Element.packageText, Element.packageText]
  rw [Element.firstTag, Element.firstTag, Element.firstTag, Element.firstTag, htags]

theorem declaredIn (h : s₁.SameCode d₁ s₂ d₂) {file : ElementId}
    (hfile : file ∈ (s₁.files d₁).values) (kinds : List Kind) :
    s₁.declaredIn kinds file = s₂.declaredIn kinds file :=
  List.flatMap_congr fun kind _ => h.membersOf (Or.inl hfile) kind

theorem declared (h : s₁.SameCode d₁ s₂ d₂) (kinds : List Kind) :
    s₁.declared d₁ kinds = s₂.declared d₂ kinds := by
  rw [Store.declared, Store.declared, ← h.files_eq]
  exact List.flatMap_congr fun file hfile => h.declaredIn hfile kinds

theorem packaged (h : s₁.SameCode d₁ s₂ d₂) : s₁.packaged d₁ = s₂.packaged d₂ := by
  rw [Store.packaged, Store.packaged, ← h.files_eq]
  exact List.flatMap_congr fun file hfile => congrArg (file :: ·) (h.declaredIn hfile packagedKinds)

theorem indexed (h : s₁.SameCode d₁ s₂ d₂) : s₁.indexed d₁ = s₂.indexed d₂ := by
  rw [Store.indexed, Store.indexed, ← h.declared]
  refine List.flatMap_congr fun e he => congrArg (e :: ·) ?_
  have hknown : s₁.Known d₁ e := Store.known_of_declared he
  rw [Store.owned, Store.owned, ← h.kind hknown]
  exact List.flatMap_congr fun kind _ => h.membersOf hknown kind

theorem describesCode (h : s₁.SameCode d₁ s₂ d₂) (h₁ : s₁.DescribesCode d₁) : s₂.DescribesCode d₂ := by
  rw [Store.DescribesCode, ← Option.isSome_map, ← h.files, Option.isSome_map]
  exact h₁

/-- What callers promise is promised of both. -/
theorem promised (h : s₁.SameCode d₁ s₂ d₂) (h₁ : s₁.Promised d₁) : s₂.Promised d₂ where
  code := h.describesCode h₁.code
  kinds := by
    intro file hfile kind hkind e he
    rw [← h.files_eq] at hfile
    rw [← h.membersOf (Or.inl hfile)] at he
    have hin : e ∈ s₁.declaredIn Tree.spaces.kinds file := List.mem_flatMap.2 ⟨kind, hkind, he⟩
    have hdeclared : e ∈ s₁.declared d₁ Tree.spaces.kinds := List.mem_flatMap.2 ⟨file, hfile, hin⟩
    rw [← h.kind (Store.known_of_declared hdeclared)]
    exact h₁.kinds file hfile kind hkind e he
  files := by
    intro file hfile
    rw [← h.files_eq] at hfile
    rw [← h.kind (Or.inl hfile)]
    exact h₁.files file hfile

/-- Stores that read the same later still have the same code. -/
theorem of_reading (h : s₁.SameCode d₁ s₂ d₂) (h₁ : SameReading d₁ s₁ t₁) (h₂ : SameReading d₂ s₂ t₂) :
    t₁.SameCode d₁ t₂ d₂ where
  files := by
    rw [h₁.input.code, h₂.input.code]
    exact h.files
  element := by
    intro e he
    rw [h₁.input.element, h₂.input.element]
    exact h.element e (h₁.input.known.1 he)
  space := by
    intro e he
    rw [h₁.input.declared] at he
    rw [h₁.space e he, h₂.space e (h.declared _ ▸ he)]
    exact h.space e he
  resolved₁ := h₁.resolved
  resolved₂ := h₂.resolved

/-- Where an element is bound in both stores to namespaces of one path, it names one namespace after it. -/
theorem bindToSpace (h : s₁.SameCode d₁ s₂ d₂) (e : ElementId) {n₁ n₂ : NodeId}
    (hpath : (s₁.node n₁).path = (s₂.node n₂).path) :
    (s₁.bindToSpace e n₁).SameCode d₁ (s₂.bindToSpace e n₂) d₂ := by
  have hinput₁ := sameInput_bindToSpace d₁ s₁ e n₁
  have hinput₂ := sameInput_bindToSpace d₂ s₂ e n₂
  have hresolved : ∀ (s : Store) (d : SetId) (n : NodeId), s.Resolved d →
      (s.bindToSpace e n).Resolved d := by
    intro s d n hs x hx m hm
    obtain ⟨hsize, hrow⟩ := size_le_bindAt s e n fun element => { element with space := .node n }
    rw [(sameInput_bindToSpace d s e n).declared] at hx
    rw [space_bindToSpace] at hm
    split at hm
    · cases hm
      exact hrow
    · exact Nat.lt_of_lt_of_le (hs x hx m hm) hsize
  refine ⟨?_, ?_, ?_, hresolved _ _ _ h.resolved₁, hresolved _ _ _ h.resolved₂⟩
  · rw [hinput₁.code, hinput₂.code]
    exact h.files
  · intro x hx
    rw [hinput₁.element, hinput₂.element]
    exact h.element x (hinput₁.known.1 hx)
  · intro x hx
    rw [hinput₁.declared] at hx
    rw [namedSpace_bindToSpace, namedSpace_bindToSpace]
    split
    · exact congrArg Path.orRoot hpath
    · exact h.space x hx

end Store.SameCode

/-- A later store with the same reading has the same code. -/
theorem Store.SameReading.sameCode {d : SetId} {s t : Store} (h : SameReading d s t)
    (hresolved : s.Resolved d) : s.SameCode d t d where
  files := h.input.code.symm
  element := fun e _ => (h.input.element e).symm
  space := fun e he => (h.space e he).symm
  resolved₁ := hresolved
  resolved₂ := h.resolved

end Docset
