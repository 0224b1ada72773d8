/-
  Two builds of the packages, side by side.

  A build of the packages reads tags and its own index and tree, and nothing else.  So on two stores with
  the same code it goes down the same names, finds or misses the same children, and makes the same
  packages, twin by twin.
-/
import Docset.Proofs.Abreast

namespace Docset

open Build

variable {ε : Type} {w : Pairing} {fresh : Fresh} {s₀ s₁ s₂ : Store} {index : String} {n₁ n₂ : NodeId}

/-! ## Going down -/

/-- The child of twins under one name is found in both, or made in both. -/
theorem openChild_abreast (h : Store.InStep w s₀ fresh s₁ s₂) (hindex : index ∈ fresh.indexes)
    (hn : w.Twins n₁ n₂) (path name : String) :
    Abreast (openChild w.set₁ index n₁ path name : Build ε NodeId) s₁
      (openChild w.set₂ index n₂ path name : Build ε NodeId) s₂
      fun c₁ t₁ c₂ t₂ => w.Twins c₁ c₂ ∧ Store.InStep w s₀ fresh t₁ t₂ := by
  rw [openChild, openChild]
  refine abreast_bind (abreast_get ?_)
  have hchild := (h.alike.node n₁ n₂ hn).children.get? (childKey name)
  generalize (s₁.node n₁).children.get? (childKey name) = child₁ at hchild ⊢
  generalize (s₂.node n₂).children.get? (childKey name) = child₂ at hchild ⊢
  cases hchild with
  | some hc => exact abreast_pure ⟨hc, h⟩
  | none =>
    refine abreast_bind ((abreast_addNode h (.single _ _ _)).mono ?_)
    rintro c₁ t₁ c₂ t₂ ⟨hc, ht⟩
    have hlinked := ht.addChild hn hc (childKey name)
    have hentered := hlinked.putEntry hindex (rfl : path = path) (.node hc)
    refine abreast_bind (abreast_change (abreast_bind (abreast_change ?_)))
    refine abreast_bind ((abreast_debug hentered _ _ _).mono ?_)
    intro _ u₁ _ u₂ hu
    exact abreast_pure ⟨hc, hu⟩

theorem descend_abreast (hindex : index ∈ fresh.indexes) (names : List String) :
    ∀ (s₁ s₂ : Store) (n₁ n₂ : NodeId) (path : String), Store.InStep w s₀ fresh s₁ s₂ → w.Twins n₁ n₂ →
      Abreast (descend w.set₁ index n₁ path names : Build ε NodeId) s₁
        (descend w.set₂ index n₂ path names : Build ε NodeId) s₂
        fun c₁ t₁ c₂ t₂ => w.Twins c₁ c₂ ∧ Store.InStep w s₀ fresh t₁ t₂ := by
  induction names with
  | nil =>
    intro s₁ s₂ n₁ n₂ path h hn
    exact abreast_pure ⟨hn, h⟩
  | cons name rest ih =>
    intro s₁ s₂ n₁ n₂ path h hn
    rw [descend, descend]
    refine abreast_bind ((openChild_abreast h hindex hn _ name).mono ?_)
    rintro c₁ t₁ c₂ t₂ ⟨hc, ht⟩
    exact ih t₁ t₂ c₁ c₂ _ ht hc

/-- **Growing** along one name ends at twins. -/
theorem growPackage_abreast (h : Store.InStep w s₀ fresh s₁ s₂) (hindex : index ∈ fresh.indexes)
    (name : String) :
    Abreast (growPackage w.set₁ index name) s₁ (growPackage w.set₂ index name) s₂
      fun n₁ t₁ n₂ t₂ => w.Twins n₁ n₂ ∧ Store.InStep w s₀ fresh t₁ t₂ := by
  have hroot : Abreast (openPackageRoot w.set₁ index) s₁ (openPackageRoot w.set₂ index) s₂
      fun n₁ t₁ n₂ t₂ => w.Twins n₁ n₂ ∧ Store.InStep w s₀ fresh t₁ t₂ := by
    rw [openPackageRoot, openPackageRoot]
    refine abreast_bind ((abreast_lookUp h hindex rfl).mono ?_)
    rintro found₁ _ found₂ _ ⟨hfound, rfl, rfl⟩
    cases hfound with
    | some hn => exact abreast_pure ⟨hn, h⟩
    | none =>
      refine abreast_bind ((abreast_addNode h (.single _ _ _)).mono ?_)
      rintro n₁ u₁ n₂ u₂ ⟨hn, hu⟩
      exact abreast_bind (abreast_change (abreast_pure ⟨hn, hu.putEntry hindex rfl (.node hn)⟩))
  rw [growPackage, growPackage]
  refine abreast_bind (hroot.mono ?_)
  rintro n₁ t₁ n₂ t₂ ⟨hn, ht⟩
  exact descend_abreast hindex _ t₁ t₂ n₁ n₂ _ ht hn

/-! ## Binding -/

/-- **Binding an element** binds it to twins. -/
theorem bindPackage_abreast (h : Store.InStep w s₀ fresh s₁ s₂) (hindex : index ∈ fresh.indexes)
    {e : ElementId} (he : e ∈ s₀.packaged w.set₁) :
    Abreast (bindPackage w.set₁ index e) s₁ (bindPackage w.set₂ index e) s₂
      fun _ t₁ _ t₂ => Store.InStep w s₀ { fresh with bound := (.packages, e) :: fresh.bound } t₁ t₂ := by
  have hknown := Store.known_of_packaged he
  have hname := h.code.packageName (h.input.known.2 hknown)
  -- Wherever the packages come from, the rest of the steps is the same.
  have hbind : ∀ n₁ t₁ n₂ t₂, w.Twins n₁ n₂ ∧ Store.InStep w s₀ fresh t₁ t₂ →
      Abreast (do change (·.updateElement e (.bindTo .packages n₁)); fileAt n₁ e) t₁
        (do change (·.updateElement e (.bindTo .packages n₂)); fileAt n₂ e) t₂
        fun _ u₁ _ u₂ =>
          Store.InStep w s₀ { fresh with bound := (.packages, e) :: fresh.bound } u₁ u₂ := by
    rintro n₁ t₁ n₂ t₂ ⟨hn, ht⟩
    exact abreast_bindAt ht .packages hn hknown
  rw [bindPackage, bindPackage]
  refine abreast_bind (abreast_get ?_)
  dsimp only
  rw [← hname]
  refine abreast_bind (abreast_mapError (abreast_bind ((abreast_lookUp h hindex rfl).mono ?_)))
  rintro found₁ _ found₂ _ ⟨hfound, rfl, rfl⟩
  cases hfound with
  | some hn => exact abreast_pure (hbind _ _ _ _ ⟨hn, h⟩)
  | none => exact (growPackage_abreast h hindex _).mono hbind

/-- A run of binding binds all its elements to twins. -/
theorem bindPackages_abreast (h : Store.InStep w s₀ fresh s₁ s₂) (hindex : index ∈ fresh.indexes)
    {es : List ElementId} (hes : ∀ e ∈ es, e ∈ s₀.packaged w.set₁) :
    Abreast (bindPackages w.set₁ index es) s₁ (bindPackages w.set₂ index es) s₂
      fun _ t₁ _ t₂ =>
        Store.InStep w s₀ { fresh with bound := es.reverse.map (Tree.packages, ·) ++ fresh.bound } t₁ t₂ := by
  refine abreast_forEach (fun done t₁ t₂ =>
    Store.InStep w s₀ { fresh with bound := done.map (Tree.packages, ·) ++ fresh.bound } t₁ t₂) h ?_
  intro done e he t₁ t₂ ht
  exact bindPackage_abreast ht hindex (hes e he)

/-! ## The whole tree -/

/-- **Two builds of the packages** come to the same: the index, the root, and what files and declared
    elements are bound to. -/
theorem buildPackages_abreast (h : Store.InStep w s₀ fresh s₁ s₂) (hcode : s₀.DescribesCode w.set₁) :
    Abreast (buildPackages w.set₁) s₁ (buildPackages w.set₂) s₂ fun _ t₁ _ t₂ =>
      Store.InStep w s₀ { fresh with
        indexes := Tree.packages.indexName :: fresh.indexes
        roots := .packages :: fresh.roots
        bound := (s₀.packaged w.set₁).reverse.map (Tree.packages, ·) ++ fresh.bound } t₁ t₂ := by
  obtain ⟨code₁, code₂, hsome₁, hsome₂⟩ := h.exists_code hcode
  rw [buildPackages, buildPackages]
  refine abreast_bind (abreast_get ?_)
  rw [hsome₁, hsome₂]
  refine abreast_bind ((abreast_addNode h (.single _ _ _)).mono ?_)
  rintro n₁ t₁ n₂ t₂ ⟨hn, ht⟩
  have hroot := ht.setRoot .packages hn hcode
  have hindex : Ledger.Alike (Entry.Alike w.Twins) (Ledger.empty.put Path.root (.node n₁))
      (Ledger.empty.put Path.root (.node n₂)) := Ledger.Alike.empty.put Path.root (.node hn)
  refine abreast_bind (abreast_change (abreast_bind ?_))
  refine (abreast_setIndex hroot Tree.packages.indexName hindex).mono ?_
  intro _ u₁ _ u₂ hu
  refine abreast_bind (abreast_get ?_)
  rw [← hu.code.packaged, hu.input.packaged]
  refine abreast_bind ((bindPackages_abreast hu List.mem_cons_self fun _ he => he).mono ?_)
  intro _ v₁ _ v₂ hv
  exact abreast_bind (abreast_get (abreast_debug hv _ _ _))

end Docset
