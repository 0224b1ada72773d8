/-
  Passes of the library commute.

  **The theorem** (`runPasses_comm`): two passes of the library, run in either order on a set, come to the
  same, up to the identity of the nodes that they make.  The one pair that does not is that of the elements
  and the namespaces, which both write the index of elements (`runPasses_elements_spaces`).

  1. Each pass has a part of the store (`Pass.Parted`), and being announced changes nothing about that
     (`runPass_leaves`, `runPass_repeats`).
  2. If the parts of two passes have nothing in common, then their work may be done in either order
     (`Pass.Parted.comm`, by `Store.Crossing.renumbered`).
  3. The parts of any two passes but that pair have nothing in common (`Pass.apart_of_mem_builtin`).
-/
import Docset.Proofs.PassParts

namespace Docset

open Build Refers

variable {d : SetId} {s s₁ s₂ t₁ t₂ : Store}

/-! ## Two passes -/

section TwoPasses

variable {p q : Pass} {a b : Store → Part}

/-- A pass that is announced leaves the same. -/
theorem runPass_leaves (hp : p.Parted d a) (hbuiltin : p ∈ Pass.builtin) (hs : s.Promised d)
    (hwhole : s.Whole d) : Ensures (runPass p d) s fun next t => next = some d ∧ t.Whole d ∧
      Store.SameReading d s t ∧ Store.Leaves d (a s) s t := by
  have hinert : Store.Inert d s (s.record compileLogger Level.info p.title) := .record s d _ _ _
  have hkeeps :=
    (runPass_keeps (Pass.lasting_reading d) (Pass.keeps_reading hbuiltin) ⟨hs, hwhole.resolved⟩).and
      (runPass_keeps (Pass.lasting_whole d) (Pass.keeps_whole hbuiltin) ⟨hs, hwhole⟩)
  have hleaves := ensures_runPass.2 (hp.leaves (hinert.input.promised hs) (hwhole.of_inert hinert))
  refine (hkeeps.and hleaves).mono ?_
  rintro next t ⟨⟨⟨hnext, hreading⟩, -, -, hwhole⟩, hleaves⟩
  rw [hp.same hinert.input] at hleaves
  exact ⟨hnext, hwhole, hreading, (Store.Leaves.record _ s _ _ _).trans hleaves⟩

/-- A pass that is announced does the same again. -/
theorem runPass_repeats (hp : p.Parted d a) {other : Part} (hs : s₁.Promised d) (hwhole : s₁.Whole d)
    (hreading : Store.SameReading d s₁ s₂) (hleaves : Store.Leaves d other s₁ s₂)
    (hapart : other.Apart (a s₁)) :
    Abreast (runPass p d) s₁ (runPass p d) s₂ fun _ t₁ _ t₂ => Store.Repeats d (a s₁) s₁ t₁ s₂ t₂ := by
  intro next₁ t₁ next₂ t₂ hrun₁ hrun₂
  have hinert : ∀ s : Store, Store.Inert d s (s.record compileLogger Level.info p.title) :=
    fun s => .record s d _ _ _
  have hback : Store.Inert d (s₁.record compileLogger Level.info p.title) s₁ :=
    ⟨.of_eq rfl rfl, rfl, fun _ => rfl, rfl, fun _ => rfl, fun _ => rfl⟩
  have hwhole' := hwhole.of_inert (hinert s₁)
  have hreading' := (Store.SameReading.of_inert hback hwhole'.resolved).trans
    (hreading.trans (.of_inert (hinert s₂) hreading.resolved))
  have hleaves_back : Store.Leaves d other (s₁.record compileLogger Level.info p.title) s₁ :=
    .of_journal other rfl rfl rfl
  have hleaves' := hleaves_back.trans (hleaves.trans (.record other s₂ compileLogger Level.info p.title))
  have hsame := hp.same (hinert s₁).input
  have hrepeats := hp.repeats ((hinert s₁).input.promised hs) hwhole' hreading' hleaves' (hsame ▸ hapart)
    next₁ t₁ next₂ t₂ (ok_of_runPass hrun₁) (ok_of_runPass hrun₂)
  rw [hsame] at hrepeats
  exact ⟨hrepeats.size, hrepeats.node, hrepeats.index, hrepeats.root, hrepeats.place, hrepeats.file⟩

/-- A run of two passes that go on with the set. -/
theorem ok_runPasses_pair (hp : runPass p d s = .ok (some d) t₁) (hq : runPass q d t₁ = .ok (some d) t₂) :
    runPasses d [p, q] s = .ok d t₂ := by
  have hrun : Ensures (runPasses d [p, q]) s fun r u => r = d ∧ u = t₂ :=
    ensures_bind.2 ⟨_, t₁, hp, ensures_bind.2 ⟨_, t₂, hq, ensures_pure.2 ⟨rfl, rfl⟩⟩⟩
  obtain ⟨r, u, hrun, rfl, rfl⟩ := hrun
  exact hrun

/-- **Passes whose parts have nothing in common** may run in either order. -/
theorem Pass.Parted.comm (hp : p.Parted d a) (hq : q.Parted d b) (hp_builtin : p ∈ Pass.builtin)
    (hq_builtin : q ∈ Pass.builtin) (hs : s.Promised d) (hwhole : s.Whole d)
    (hapart : (a s).Apart (b s)) :
    ∃ u₁ u₂, runPasses d [p, q] s = .ok d u₁ ∧ runPasses d [q, p] s = .ok d u₂ ∧
      ∃ ρ : Equiv.Perm NodeId, (∀ n, n.row < s.nodes.size → ρ n = n) ∧ Store.Renumbered ρ d u₁ u₂ := by
  obtain ⟨_, t₁, hfirst₁, rfl, hwhole₁, hreading₁, hleaves₁⟩ := runPass_leaves hp hp_builtin hs hwhole
  obtain ⟨_, t₂, hfirst₂, rfl, hwhole₂, hreading₂, hleaves₂⟩ := runPass_leaves hq hq_builtin hs hwhole
  obtain ⟨_, u₁, hthen₁, rfl, -, -, hleaves₁'⟩ :=
    runPass_leaves hq hq_builtin (hreading₁.promised hs) hwhole₁
  obtain ⟨_, u₂, hthen₂, rfl, -, -, hleaves₂'⟩ :=
    runPass_leaves hp hp_builtin (hreading₂.promised hs) hwhole₂
  rw [hq.same hreading₁.input] at hleaves₁'
  rw [hp.same hreading₂.input] at hleaves₂'
  have hcrossing : Store.Crossing d (a s) (b s) s t₁ u₁ t₂ u₂ :=
    { apart := hapart
      whole := hwhole
      whole₁ := hwhole₁
      whole₂ := hwhole₂
      first₁ := hleaves₁
      then₁ := hleaves₁'
      first₂ := hleaves₂
      then₂ := hleaves₂'
      again_a := runPass_repeats hp hs hwhole hreading₂ hleaves₂ hapart.symm _ _ _ _ hfirst₁ hthen₂
      again_b := runPass_repeats hq hs hwhole hreading₁ hleaves₁ hapart _ _ _ _ hfirst₂ hthen₁ }
  exact ⟨u₁, u₂, ok_runPasses_pair hfirst₁ hthen₁, ok_runPasses_pair hfirst₂ hthen₂,
    NodeId.exchange hleaves₁.size_le hleaves₂.size_le, fun n hn => NodeId.trade_of_lt_base hn,
    hcrossing.renumbered⟩

end TwoPasses

/-! ## Which parts have nothing in common -/

namespace Part

variable {tree other : Tree} {names more : List String} {es fs : List ElementId}

/-- Two trees share no root and no binding. -/
theorem apart_ofTree (htree : tree ≠ other) (hnames : ∀ name ∈ names, name ∉ more) :
    (ofTree tree names es).Apart (ofTree other more fs) where
  indexes := hnames
  roots := by
    intro x hx hx'
    exact htree ((List.mem_singleton.1 hx).symm.trans (List.mem_singleton.1 hx'))
  bound := by
    intro x hx hx'
    obtain ⟨e, -, rfl⟩ := List.mem_map.1 hx
    obtain ⟨f, -, heq⟩ := List.mem_map.1 hx'
    exact htree (congrArg Prod.fst heq).symm
  sources := fun _ he => absurd he List.not_mem_nil

/-- Indexes of elements are no part of a tree that does not write them. -/
theorem apart_ofElements (hnames : ∀ name ∈ ofElements.indexes, name ∉ names) :
    ofElements.Apart (ofTree tree names es) where
  indexes := hnames
  roots := fun _ hx => absurd hx List.not_mem_nil
  bound := fun _ hx => absurd hx List.not_mem_nil
  sources := fun _ hx => absurd hx List.not_mem_nil

/-- Whoever takes no source text out shares nothing with the pass that does. -/
theorem apart_sources {a : Part} (ha : a.sources = []) (files : List ElementId) :
    a.Apart ⟨.nothing, files⟩ where
  indexes := fun _ _ => List.not_mem_nil
  roots := fun _ _ => List.not_mem_nil
  bound := fun _ _ => List.not_mem_nil
  sources := by
    rw [ha]
    exact fun _ he => absurd he List.not_mem_nil

end Part

/-- The passes have parts that never have anything in common. -/
def Pass.Apart (p q : Pass) (d : SetId) : Prop :=
  ∃ a b, p.Parted d a ∧ q.Parted d b ∧ ∀ s, (a s).Apart (b s)

theorem Pass.Apart.symm {p q : Pass} (h : p.Apart q d) : q.Apart p d := by
  obtain ⟨a, b, hp, hq, hapart⟩ := h
  exact ⟨b, a, hq, hp, fun s => (hapart s).symm⟩

/-- The passes of the library keep to parts of their own, but for the index of elements, into which the
    namespaces write. -/
theorem Pass.apart_of_mem_builtin {p q : Pass} (hp : p ∈ builtin) (hq : q ∈ builtin) (hne : p ≠ q)
    (hpair : ¬(p = elementsIndex ∧ q = namespaceTree)) (hpair' : ¬(p = namespaceTree ∧ q = elementsIndex)) :
    p.Apart q d := by
  have helements_packages : elementsIndex.Apart packageTree d :=
    ⟨_, _, elementsIndex_parted, packageTree_parted, fun _ => Part.apart_ofElements (by decide)⟩
  have helements_sources : elementsIndex.Apart removeSource d :=
    ⟨_, _, elementsIndex_parted, removeSource_parted, fun _ => Part.apart_sources rfl _⟩
  have hspaces_packages : namespaceTree.Apart packageTree d :=
    ⟨_, _, namespaceTree_parted, packageTree_parted, fun _ => Part.apart_ofTree (by decide) (by decide)⟩
  have hspaces_sources : namespaceTree.Apart removeSource d :=
    ⟨_, _, namespaceTree_parted, removeSource_parted, fun _ => Part.apart_sources rfl _⟩
  have hpackages_sources : packageTree.Apart removeSource d :=
    ⟨_, _, packageTree_parted, removeSource_parted, fun _ => Part.apart_sources rfl _⟩
  simp only [builtin, List.mem_cons, List.not_mem_nil, or_false] at hp hq
  rcases hp with rfl | rfl | rfl | rfl
  · rcases hq with rfl | rfl | rfl | rfl
    · exact absurd rfl hne
    · exact absurd ⟨rfl, rfl⟩ hpair
    · exact helements_packages
    · exact helements_sources
  · rcases hq with rfl | rfl | rfl | rfl
    · exact absurd ⟨rfl, rfl⟩ hpair'
    · exact absurd rfl hne
    · exact hspaces_packages
    · exact hspaces_sources
  · rcases hq with rfl | rfl | rfl | rfl
    · exact helements_packages.symm
    · exact hspaces_packages.symm
    · exact absurd rfl hne
    · exact hpackages_sources
  · rcases hq with rfl | rfl | rfl | rfl
    · exact helements_sources.symm
    · exact hspaces_sources.symm
    · exact hpackages_sources.symm
    · exact absurd rfl hne

/-! ## The theorem -/

/-- **Passes of the library commute**: two of them, in either order, end well and come to the same, up to
    the numbers of the nodes that they make.  The pair of the index of elements and the namespaces is left
    out. -/
theorem runPasses_comm {p q : Pass} (hp : p ∈ Pass.builtin) (hq : q ∈ Pass.builtin) (hne : p ≠ q)
    (hpair : ¬(p = Pass.elementsIndex ∧ q = Pass.namespaceTree))
    (hpair' : ¬(p = Pass.namespaceTree ∧ q = Pass.elementsIndex)) (hs : s.Promised d)
    (hwhole : s.Whole d) :
    ∃ t₁ t₂, runPasses d [p, q] s = .ok d t₁ ∧ runPasses d [q, p] s = .ok d t₂ ∧
      ∃ ρ : Equiv.Perm NodeId, (∀ n, n.row < s.nodes.size → ρ n = n) ∧ Store.Renumbered ρ d t₁ t₂ := by
  obtain ⟨a, b, hp_parted, hq_parted, hapart⟩ := Pass.apart_of_mem_builtin (d := d) hp hq hne hpair hpair'
  exact hp_parted.comm hq_parted hp hq hs hwhole (hapart s)

/-- A class that is bound to a namespace of an earlier build, which left its entries behind: packages and
    namespaces are made in either order, and the old namespace keeps its number. -/
theorem runPasses_comm_rebound :
    let s := (((Store.ofDeclared [.declare .classType "\\A\\B\\X" "" (.path "\\A\\B") .unset]).addNode
      (.ofPath "\\A\\B")).1.updateElement ⟨1⟩ (.bindTo .spaces ⟨2⟩)).putEntry ⟨0⟩ elementsIndex
        "~\\A\\B" (.node ⟨2⟩)
    s.Promised ⟨0⟩ ∧ s.Whole ⟨0⟩ ∧ ∃ t₁ t₂ : Store,
      runPasses ⟨0⟩ [Pass.packageTree, Pass.namespaceTree] s = .ok ⟨0⟩ t₁ ∧
      runPasses ⟨0⟩ [Pass.namespaceTree, Pass.packageTree] s = .ok ⟨0⟩ t₂ ∧
      ∃ ρ : Equiv.Perm NodeId, ρ ⟨2⟩ = ⟨2⟩ ∧ t₂.element ⟨1⟩ = renumber ρ (t₁.element ⟨1⟩) ∧
        t₂.index? ⟨0⟩ elementsIndex = renumber ρ (t₁.index? ⟨0⟩ elementsIndex) := by
  intro s
  have hpromised : s.Promised ⟨0⟩ := ⟨by decide, by decide, by decide⟩
  have hwhole : s.Whole ⟨0⟩ := by decide
  have hne : Pass.packageTree ≠ Pass.namespaceTree := fun heq =>
    absurd (congrArg Pass.name heq) (by decide)
  have hfirst : Pass.packageTree ≠ Pass.elementsIndex := fun heq =>
    absurd (congrArg Pass.name heq) (by decide)
  obtain ⟨t₁, t₂, hrun₁, hrun₂, ρ, hold, hsame⟩ := runPasses_comm
    (List.mem_cons_of_mem _ (List.mem_cons_of_mem _ List.mem_cons_self))
    (List.mem_cons_of_mem _ List.mem_cons_self) hne (fun h => hfirst h.1) (fun h => hne h.1) hpromised
    hwhole
  exact ⟨hpromised, hwhole, t₁, t₂, hrun₁, hrun₂, ρ, hold ⟨2⟩ (by decide), hsame.element ⟨1⟩,
    hsame.index elementsIndex⟩

/-! ## The pair that is left out -/

/-- The pass over elements ends well, and no node stands in their index. -/
theorem runPass_elementsIndex (hs : s.Promised d) : Ensures (runPass Pass.elementsIndex d) s
    fun next t => next = some d ∧ t.Promised d ∧ ∀ n, n ∉ refs (t.index d elementsIndex) := by
  have hannounced := (Store.SameInput.record s d compileLogger Level.info Pass.elementsIndex.title).promised hs
  have hrun : Ensures (runPass Pass.elementsIndex d) s fun _ t => ∃ u es, t.index d elementsIndex =
      Store.indexOf u es := ensures_runPass.2 (ensures_bind.2
    ((indexElements_index hannounced.code).mono fun _ _ ht => ensures_pure.2 ⟨_, _, ht⟩))
  refine ((runPass_keeps (Pass.lasting_input d) (Pass.safe_of_mem_builtin List.mem_cons_self) hs).and
    hrun).mono ?_
  rintro next t ⟨⟨hnext, hinput⟩, u, es, hindex⟩
  rw [hindex]
  exact ⟨hnext, hinput.promised hs, u.not_mem_refs_indexOf es⟩

/-- The pass over namespaces ends well, and the root stands in the index of elements. -/
theorem runPass_namespaceTree (hs : s.Promised d) : Ensures (runPass Pass.namespaceTree d) s
    fun next t => next = some d ∧ t.Promised d ∧
      ∃ n, (t.index d elementsIndex).get? ("~" ++ Path.root) = some (.node n) := by
  have hannounced := (Store.SameInput.record s d compileLogger Level.info Pass.namespaceTree.title).promised hs
  have hrun : Ensures (runPass Pass.namespaceTree d) s fun _ t =>
      ∃ n, (t.index d elementsIndex).get? ("~" ++ Path.root) = some (.node n) :=
    ensures_runPass.2 (ensures_bind.2 (ensures_mapError.2
      ((buildSpaces_enters_root hannounced).mono fun _ _ ht => ensures_pure.2 ⟨_, ht⟩)))
  refine ((runPass_keeps (Pass.lasting_input d)
    (Pass.safe_of_mem_builtin (List.mem_cons_of_mem _ List.mem_cons_self)) hs).and hrun).mono ?_
  rintro next t ⟨⟨hnext, hinput⟩, hroot⟩
  exact ⟨hnext, hinput.promised hs, hroot⟩

/-- **The pair that is left out never commutes**: where the namespaces come last, their root stands in the
    index of elements, and where the elements come last, it does not. -/
theorem runPasses_elements_spaces (hs : s.Promised d) :
    ∃ t₁ t₂, runPasses d [Pass.elementsIndex, Pass.namespaceTree] s = .ok d t₁ ∧
      runPasses d [Pass.namespaceTree, Pass.elementsIndex] s = .ok d t₂ ∧
      ∀ ρ, ¬ Store.Renumbered ρ d t₁ t₂ := by
  obtain ⟨_, u₁, hfirst₁, rfl, hu₁, -⟩ := runPass_elementsIndex hs
  obtain ⟨_, t₁, hthen₁, rfl, -, n, hroot⟩ := runPass_namespaceTree hu₁
  obtain ⟨_, u₂, hfirst₂, rfl, hu₂, -⟩ := runPass_namespaceTree hs
  obtain ⟨_, t₂, hthen₂, rfl, -, hnone⟩ := runPass_elementsIndex hu₂
  refine ⟨t₁, t₂, ok_runPasses_pair hfirst₁ hthen₁, ok_runPasses_pair hfirst₂ hthen₂, fun ρ hsame => ?_⟩
  have hindex : t₂.index d elementsIndex = renumber ρ (t₁.index d elementsIndex) := by
    rw [Store.index, hsame.index, Store.index?_of_get? hroot]
    rfl
  have hentry : ("~" ++ Path.root, Entry.node (ρ n)) ∈ (t₂.index d elementsIndex).entries := by
    rw [hindex]
    exact List.mem_map.2 ⟨_, Ledger.mem_of_find_eq_some hroot, rfl⟩
  exact hnone (ρ n) (Ledger.mem_refs.2 ⟨_, List.mem_map.2 ⟨_, hentry, rfl⟩, List.mem_cons_self⟩)

end Docset
