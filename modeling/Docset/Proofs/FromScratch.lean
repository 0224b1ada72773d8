/-
  A full build is from scratch.

  **The theorem** (`Compiler.compile_fromScratch`): if two sets have the same code, then the standard
  compiler comes to the same on both, whatever their stores held before: indexes, roots, bindings and
  nodes of earlier builds.  "The same" is up to the numbers of the nodes that are made, which are counted
  on from where each store stood.  A second build of a set is one on a set with the same code, so it
  comes to what the first one came to.

  1. Each pass of the library, begun on stores in step, ends on stores in step, with more made anew
     (`Pass.Advances`).  The indexes of elements are read off the code in one go; for the two trees this
     is the work of `buildSpaces_abreast` and `buildPackages_abreast`.
  2. A run of passes is a chain of such advances (`Pass.Course`).  The standard passes, in the order of
     running, lead from nothing to all that the trees and the indexes are (`course_standard`).
  3. In the beginning nothing is made anew, and so any two stores with the same code are in step.
-/
import Docset.Proofs.Namespace.Abreast
import Docset.Proofs.Package.Abreast

namespace Docset

open Build

variable {ε : Type} {w : Pairing} {fresh later last : Fresh} {s₀ s₁ s₂ : Store}

/-! ## The indexes of elements -/

/-- The indexes of a list of known elements have the same entries under the same keys. -/
theorem Store.InStep.indexOf (h : Store.InStep w s₀ fresh s₁ s₂) {es₁ es₂ : List ElementId}
    (hes : es₁ = es₂) (hknown : ∀ e ∈ es₁, s₁.Known w.set₁ e) :
    Ledger.Alike (Entry.Alike w.Twins) (s₁.indexOf es₁) (s₂.indexOf es₂) := by
  subst hes
  have hpairs : es₁.map (fun e => (s₁.indexKey e, Entry.element e)) =
      es₁.map fun e => (s₂.indexKey e, Entry.element e) :=
    List.map_congr_left fun e he => congrArg (·, Entry.element e) (h.code.indexKey (hknown e he))
  rw [Store.indexOf, Store.indexOf, Store.enter, Store.enter, ← hpairs]
  refine Ledger.Alike.empty.putAll fun pair hpair => ?_
  obtain ⟨e, -, rfl⟩ := List.mem_map.1 hpair
  exact .element e

/-- The indexes of some kinds are made anew.  Each is read off the stores as they were before the first
    was written. -/
theorem Store.InStep.setKindIndexes (h : Store.InStep w s₀ fresh s₁ s₂) {pairs : List (Kind × String)}
    (hpairs : ∀ pair ∈ pairs, pair.1 ∈ Tree.spaces.kinds) :
    ∀ (later : Fresh) (t₁ t₂ : Store), Store.InStep w s₀ later t₁ t₂ →
      Store.InStep w s₀ { later with indexes := (pairs.map Prod.snd).reverse ++ later.indexes }
        (pairs.foldl
          (fun t pair => t.setIndex w.set₁ pair.2 (s₁.indexOf (s₁.declared w.set₁ [pair.1]))) t₁)
        (pairs.foldl
          (fun t pair => t.setIndex w.set₂ pair.2 (s₂.indexOf (s₂.declared w.set₂ [pair.1]))) t₂) := by
  induction pairs with
  | nil =>
    intro later t₁ t₂ ht
    exact ht
  | cons pair rest ih =>
    intro later t₁ t₂ ht
    have hkind : [pair.1] ⊆ Tree.spaces.kinds :=
      List.cons_subset.2 ⟨hpairs pair List.mem_cons_self, List.nil_subset _⟩
    have hindex := h.indexOf (h.code.declared [pair.1]) fun e he =>
      Store.known_of_declared (s₁.declared_subset w.set₁ hkind he)
    rw [List.map_cons, List.reverse_cons, List.append_assoc]
    exact ih (fun x hx => hpairs x (List.mem_cons_of_mem _ hx)) _ _ _ (ht.setIndex pair.2 hindex)

theorem Store.InStep.withElementIndexes (h : Store.InStep w s₀ fresh s₁ s₂) :
    Store.InStep w s₀ { fresh with
        indexes := (kindIndexes.map Prod.snd).reverse ++ elementsIndex :: fresh.indexes }
      (s₁.withElementIndexes w.set₁) (s₂.withElementIndexes w.set₂) := by
  have helements := h.setIndex elementsIndex (h.indexOf h.code.indexed fun e he => Or.inr he)
  have hkinds : ∀ pair ∈ kindIndexes, pair.1 ∈ Tree.spaces.kinds := by decide
  exact h.setKindIndexes hkinds _ _ _ helements

theorem indexElements_abreast (h : Store.InStep w s₀ fresh s₁ s₂) (hcode : s₀.DescribesCode w.set₁) :
    Abreast (indexElements w.set₁ : Build ε Unit) s₁ (indexElements w.set₂ : Build ε Unit) s₂
      fun _ t₁ _ t₂ => Store.InStep w s₀ { fresh with
        indexes := (kindIndexes.map Prod.snd).reverse ++ elementsIndex :: fresh.indexes } t₁ t₂ := by
  obtain ⟨code₁, code₂, hsome₁, hsome₂⟩ := h.exists_code hcode
  rw [indexElements, indexElements]
  refine abreast_bind (abreast_get ?_)
  rw [hsome₁, hsome₂]
  exact abreast_bind (abreast_set (abreast_debug h.withElementIndexes _ _ _))

/-! ## Passes -/

/-- Begun in step, where some things are made anew, the pass ends in step, where more are; both times it
    goes on with the set. -/
def Pass.Advances (p : Pass) (w : Pairing) (s₀ : Store) (fresh later : Fresh) : Prop :=
  ∀ s₁ s₂, Store.InStep w s₀ fresh s₁ s₂ →
    Abreast (p.run w.set₁) s₁ (p.run w.set₂) s₂ fun next₁ t₁ next₂ t₂ =>
      next₁ = some w.set₁ ∧ next₂ = some w.set₂ ∧ Store.InStep w s₀ later t₁ t₂

/-- Steps that each answer with the set they were given. -/
theorem abreast_goOn {step₁ step₂ : Build PassFailure Unit}
    (h : Abreast step₁ s₁ step₂ s₂ fun _ t₁ _ t₂ => Store.InStep w s₀ later t₁ t₂) :
    Abreast (do step₁; pure (some w.set₁)) s₁ (do step₂; pure (some w.set₂)) s₂
      fun next₁ t₁ next₂ t₂ =>
        next₁ = some w.set₁ ∧ next₂ = some w.set₂ ∧ Store.InStep w s₀ later t₁ t₂ :=
  abreast_bind (h.mono fun _ _ _ _ ht => abreast_pure ⟨rfl, rfl, ht⟩)

theorem elementsIndex_advances (hcode : s₀.DescribesCode w.set₁) :
    Pass.elementsIndex.Advances w s₀ fresh { fresh with
      indexes := (kindIndexes.map Prod.snd).reverse ++ elementsIndex :: fresh.indexes } :=
  fun _ _ h => abreast_goOn (indexElements_abreast h hcode)

theorem packageTree_advances (hcode : s₀.DescribesCode w.set₁) :
    Pass.packageTree.Advances w s₀ fresh { fresh with
      indexes := Tree.packages.indexName :: fresh.indexes
      roots := .packages :: fresh.roots
      bound := (s₀.packaged w.set₁).reverse.map (Tree.packages, ·) ++ fresh.bound } :=
  fun _ _ h => abreast_goOn (abreast_mapError (buildPackages_abreast h hcode))

theorem namespaceTree_advances (hcode : s₀.DescribesCode w.set₁)
    (helements : elementsIndex ∈ fresh.indexes) :
    Pass.namespaceTree.Advances w s₀ fresh { fresh with
      indexes := Tree.spaces.indexName :: fresh.indexes
      roots := .spaces :: fresh.roots
      bound := (s₀.declared w.set₁ Tree.spaces.kinds).reverse.map (Tree.spaces, ·) ++ fresh.bound } :=
  fun _ _ h => abreast_goOn (abreast_mapError
    ((buildSpaces_abreast h (fun _ _ => .node) (h.beside helements) hcode).mono fun _ _ _ _ ht => ht.step))

theorem removeSource_advances : Pass.removeSource.Advances w s₀ fresh fresh := by
  intro s₁ s₂ h
  refine abreast_goOn ((removeSources_inert.abreast removeSources_inert).mono ?_)
  rintro _ t₁ _ t₂ ⟨h₁, h₂⟩
  exact h.of_inert h₁ h₂

/-! ## Runs of passes -/

/-- Passes that advance one after another. -/
inductive Pass.Course (w : Pairing) (s₀ : Store) : List Pass → Fresh → Fresh → Prop
  | arrived (fresh : Fresh) : Course w s₀ [] fresh fresh
  | pass {p : Pass} {rest : List Pass} {fresh later last : Fresh} :
    p.Advances w s₀ fresh later → Course w s₀ rest later last → Course w s₀ (p :: rest) fresh last

/-- **A run along a course** ends in step. -/
theorem runPasses_abreast {ps : List Pass} (hps : Pass.Course w s₀ ps fresh last) :
    ∀ s₁ s₂, Store.InStep w s₀ fresh s₁ s₂ →
      Abreast (runPasses w.set₁ ps) s₁ (runPasses w.set₂ ps) s₂
        fun _ t₁ _ t₂ => Store.InStep w s₀ last t₁ t₂ := by
  induction hps with
  | arrived fresh =>
    intro s₁ s₂ h
    exact abreast_pure h
  | @pass p rest fresh later last hp _ ih =>
    intro s₁ s₂ h
    have hrun : Abreast (runPass p w.set₁) s₁ (runPass p w.set₂) s₂ fun next₁ t₁ next₂ t₂ =>
        next₁ = some w.set₁ ∧ next₂ = some w.set₂ ∧ Store.InStep w s₀ later t₁ t₂ :=
      fun _ _ _ _ h₁ h₂ => hp _ _ (h.record _ _ _ _) _ _ _ _ (ok_of_runPass h₁) (ok_of_runPass h₂)
    rw [runPasses, runPasses]
    refine abreast_bind (hrun.mono ?_)
    rintro _ t₁ _ t₂ ⟨rfl, rfl, ht⟩
    exact ih t₁ t₂ ht

/-- All that a full build makes anew: indexes, roots, and what files and declared elements are bound to. -/
def Store.compiled (s : Store) (d : SetId) : Fresh where
  indexes := elementsIndex :: Tree.spaces.indexName :: Tree.packages.indexName :: kindIndexes.map Prod.snd
  roots := [.spaces, .packages]
  bound := (s.declared d Tree.spaces.kinds).map (Tree.spaces, ·) ++ (s.packaged d).map (Tree.packages, ·)

/-- The standard passes lead from nothing to a full build. -/
theorem course_standard (hcode : s₀.DescribesCode w.set₁) :
    ∃ last, Pass.Course w s₀ Compiler.standard.passes .nothing last ∧
      ∀ s₁ s₂, Store.Alike w last s₁ s₂ → Store.Alike w (s₀.compiled w.set₁) s₁ s₂ := by
  have helements : elementsIndex ∈
      Tree.packages.indexName :: ((kindIndexes.map Prod.snd).reverse ++ [elementsIndex]) := by decide
  have hindexes : elementsIndex :: Tree.spaces.indexName :: Tree.packages.indexName ::
      kindIndexes.map Prod.snd ⊆ Tree.spaces.indexName :: Tree.packages.indexName ::
        ((kindIndexes.map Prod.snd).reverse ++ [elementsIndex]) := by decide
  have hbound : (s₀.compiled w.set₁).bound ⊆
      (s₀.declared w.set₁ Tree.spaces.kinds).reverse.map (Tree.spaces, ·) ++
        ((s₀.packaged w.set₁).reverse.map (Tree.packages, ·) ++ []) := by
    rw [List.map_reverse, List.map_reverse, List.append_nil]
    exact List.append_subset.2
      ⟨fun _ he => List.mem_append_left _ (List.mem_reverse.2 he),
        fun _ he => List.mem_append_right _ (List.mem_reverse.2 he)⟩
  rw [Compiler.passes_standard]
  refine ⟨_, .pass (elementsIndex_advances hcode) (.pass (packageTree_advances hcode)
    (.pass (namespaceTree_advances hcode helements) (.pass removeSource_advances (.arrived _)))), ?_⟩
  exact fun _ _ h => h.of_subset hindexes (List.Subset.refl _) hbound

/-- **Two full builds** of the same code come to the same. -/
theorem Compiler.compile_abreast {d₁ d₂ : SetId} (h : s₁.SameCode d₁ s₂ d₂)
    (hcode : s₁.DescribesCode d₁) (config₁ config₂ : Option Config) :
    Abreast (standard.compile d₁ config₁) s₁ (standard.compile d₂ config₂) s₂ fun _ t₁ _ t₂ =>
      Store.Alike ⟨d₁, s₁.nodes.size, d₂, s₂.nodes.size⟩ (s₁.compiled d₁) t₁ t₂ := by
  obtain ⟨u₁, hinert₁, hrun₁⟩ := standard.compile_eq d₁ config₁ s₁
  obtain ⟨u₂, hinert₂, hrun₂⟩ := standard.compile_eq d₂ config₂ s₂
  obtain ⟨last, hcourse, hlast⟩ :=
    course_standard (w := ⟨d₁, s₁.nodes.size, d₂, s₂.nodes.size⟩) hcode
  have hrun := runPasses_abreast hcourse u₁ u₂ (h.inStep.of_inert hinert₁ hinert₂)
  rw [Abreast, hrun₁, hrun₂]
  exact hrun.mono fun _ t₁ _ t₂ ht => hlast t₁ t₂ ht.alike

/-! ## The theorem -/

/-- **A full build is from scratch**: two sets with the same code come to the same, up to the numbers of
    the nodes that are made, whatever indexes, roots, bindings and nodes there were before.  Building a set
    again, too, makes as many nodes as before, and each is as the one that was made in its place. -/
theorem Compiler.compile_fromScratch {s₁ s₂ : Store} {d₁ d₂ : SetId} (hcode : s₁.SameCode d₁ s₂ d₂)
    (h₁ : s₁.Promised d₁) (config₁ config₂ again : Option Config) :
    ∃ t₁ t₂ u, standard.compile d₁ config₁ s₁ = .ok d₁ t₁ ∧ standard.compile d₂ config₂ s₂ = .ok d₂ t₂ ∧
      Store.Alike ⟨d₁, s₁.nodes.size, d₂, s₂.nodes.size⟩ (s₁.compiled d₁) t₁ t₂ ∧
      standard.compile d₁ again t₁ = .ok d₁ u ∧
      Store.Alike ⟨d₁, s₁.nodes.size, d₁, t₁.nodes.size⟩ (s₁.compiled d₁) t₁ u := by
  obtain ⟨result₁, t₁, hrun₁, hresult₁, hreading⟩ :=
    Compiler.compile_reading (c := standard) (fun _ hp => hp) config₁ h₁ hcode.resolved₁
  obtain ⟨result₂, t₂, hrun₂, hresult₂, -⟩ :=
    Compiler.compile_ensures (c := standard) (fun _ hp => hp) config₂ (hcode.promised h₁)
  obtain ⟨result, u, hrun, hresult, -⟩ :=
    Compiler.compile_ensures (c := standard) (fun _ hp => hp) again (hreading.promised h₁)
  have halike := Compiler.compile_abreast hcode h₁.code config₁ config₂ _ _ _ _ hrun₁ hrun₂
  have hagain := Compiler.compile_abreast (hreading.sameCode hcode.resolved₁) h₁.code config₁ again
    _ _ _ _ hrun₁ hrun
  subst hresult₁ hresult₂ hresult
  exact ⟨t₁, t₂, u, hrun₁, hrun₂, halike, hrun, hagain⟩

/-- A class whose namespace is text, and the same class bound to a namespace that an earlier build made,
    which left its index behind: the builds number the new namespaces one apart. -/
theorem Compiler.compile_fromScratch_rebound :
    let s₁ := Store.ofDeclared [.declare .classType "\\A\\B\\X" "" (.path "\\A\\B") .unset]
    let s₂ := ((s₁.addNode (.ofPath "\\A\\B")).1.updateElement ⟨1⟩
      fun e => { e with space := .node ⟨2⟩ }).putEntry ⟨0⟩ Tree.spaces.indexName "\\Z" (.node ⟨2⟩)
    s₁.SameCode ⟨0⟩ s₂ ⟨0⟩ ∧ s₁.Promised ⟨0⟩ ∧
      ∃ t₁ t₂ u, standard.compile ⟨0⟩ none s₁ = .ok ⟨0⟩ t₁ ∧ standard.compile ⟨0⟩ none s₂ = .ok ⟨0⟩ t₂ ∧
        standard.compile ⟨0⟩ none t₁ = .ok ⟨0⟩ u ∧ u.nodes.size + 2 = t₁.nodes.size + t₁.nodes.size ∧
        ∃ n₁ n₂, (t₁.element ⟨1⟩).boundTo .spaces = some n₁ ∧ (t₂.element ⟨1⟩).boundTo .spaces = some n₂ ∧
          n₂.row = n₁.row + 1 := by
  intro s₁ s₂
  have hadd : Store.SameInput ⟨0⟩ s₁ (s₁.addNode (.ofPath "\\A\\B")).1 := .of_eq rfl rfl
  have hinput : Store.SameInput ⟨0⟩ s₁ s₂ := by
    refine hadd.trans (.trans ?_ (.setIndex _ _ _ _))
    exact .updateElement _ _ _ fun _ => rfl
  have hcode : s₁.SameCode ⟨0⟩ s₂ ⟨0⟩ :=
    ⟨hinput.code.symm, fun e _ => (hinput.element e).symm, by decide, by decide, by decide⟩
  have hpromised : s₁.Promised ⟨0⟩ := ⟨by decide, by decide, by decide⟩
  obtain ⟨t₁, t₂, u, hrun₁, hrun₂, halike, hrun, hagain⟩ :=
    Compiler.compile_fromScratch hcode hpromised none none none
  obtain ⟨n₁, n₂, hbound₁, hbound₂, -, htwin⟩ := halike.bound .spaces ⟨1⟩ (by decide)
  have htwin : n₂.row + 2 = n₁.row + 3 := htwin
  exact ⟨hcode, hpromised, t₁, t₂, u, hrun₁, hrun₂, hrun, hagain.next.2, n₁, n₂, hbound₁, hbound₂, by omega⟩

end Docset
