/-
  Two builds of the namespaces, side by side.

  If two stores have the same code, then all that a build of the namespaces does on the one it does on the
  other, with twins for nodes: it looks up the same paths, finds or misses the same, makes and links the
  same.  Old nodes come in at one place only.  What an element names may be the path of an old node, but
  this is a text, and the texts are the same (`SameCode.space`).

  The index of elements is not made anew but written into.  It is not read either, so it may hold anything
  before.  But if it held the same keys both times, then it does so afterwards, with the same namespaces
  entered (`Store.Beside`, `Store.Entering`).
-/
import Docset.Proofs.Abreast
import Docset.Proofs.Footprint

namespace Docset

open Build

variable {ε α β : Type} {w : Pairing} {fresh : Fresh} {s₀ s₁ s₂ t₁ t₂ : Store}
  {index elements name : String} {n₁ n₂ m₁ m₂ : NodeId} {E : Entry → Entry → Prop}

/-! ## An index beside -/

/-- The indexes of a name have the same keys in the same order, and under them entries that belong
    together; an absent index is empty. -/
def Store.Beside (E : Entry → Entry → Prop) (w : Pairing) (name : String) (s₁ s₂ : Store) : Prop :=
  Ledger.Alike E (s₁.index w.set₁ name) (s₂.index w.set₂ name)

namespace Store.Beside

theorem of_index (h : Store.Beside E w name s₁ s₂)
    (h₁ : t₁.index w.set₁ name = s₁.index w.set₁ name)
    (h₂ : t₂.index w.set₂ name = s₂.index w.set₂ name) : Store.Beside E w name t₁ t₂ := by
  rw [Store.Beside, h₁, h₂]
  exact h

/-- Steps of a build of the namespaces that keep within other indexes leave the index as it was. -/
theorem abreast (h : Store.Beside E w name s₁ s₂) (es₁ es₂ : List ElementId) {step₁ : Build ε α}
    {step₂ : Build ε β} {Q : α → Store → β → Store → Prop} (hQ : Abreast step₁ s₁ step₂ s₂ Q)
    {names : List String} (hname : name ∉ names) (h₁ : Build.Within w.set₁ .spaces names es₁ step₁ s₁)
    (h₂ : Build.Within w.set₂ .spaces names es₂ step₂ s₂) :
    Abreast step₁ s₁ step₂ s₂ fun a t₁ b t₂ => Q a t₁ b t₂ ∧ Store.Beside E w name t₁ t₂ := by
  intro a t₁ b t₂ hrun₁ hrun₂
  refine ⟨hQ a t₁ b t₂ hrun₁ hrun₂, h.of_index ?_ ?_⟩
  · rw [Store.index, Store.index, (h₁.of_ok hrun₁).index name hname]
  · rw [Store.index, Store.index, (h₂.of_ok hrun₂).index name hname]

end Store.Beside

/-- An index that is made anew has twins under the same keys. -/
theorem Store.InStep.beside (h : Store.InStep w s₀ fresh s₁ s₂) (hname : name ∈ fresh.indexes) :
    Store.Beside (Entry.Alike w.Twins) w name s₁ s₂ := by
  obtain ⟨i₁, i₂, hi₁, hi₂, hi⟩ := h.alike.index name hname
  rw [Store.Beside, Store.index, Store.index, hi₁, hi₂]
  exact hi

/-! ## Binding -/

theorem createSpace_abreast (h : Store.InStep w s₀ fresh s₁ s₂) (hindex : index ∈ fresh.indexes)
    {path₁ path₂ : String} (hpath : path₁ = path₂) :
    Abreast (createSpace w.set₁ index path₁ : Build ε NodeId) s₁
      (createSpace w.set₂ index path₂ : Build ε NodeId) s₂
      fun n₁ t₁ n₂ t₂ => w.Twins n₁ n₂ ∧ Store.InStep w s₀ fresh t₁ t₂ := by
  subst hpath
  refine abreast_bind ((abreast_addNode h (.single _ _ _)).mono ?_)
  rintro n₁ t₁ n₂ t₂ ⟨hn, ht⟩
  exact abreast_bind (abreast_change (abreast_pure ⟨hn, ht.putEntry hindex rfl (.node hn)⟩))

/-- **Binding an element** binds it to twins. -/
theorem bindSpace_abreast (h : Store.InStep w s₀ fresh s₁ s₂) (hindex : index ∈ fresh.indexes)
    {e : ElementId} (he : e ∈ s₀.declared w.set₁ Tree.spaces.kinds) :
    Abreast (bindSpace w.set₁ index e) s₁ (bindSpace w.set₂ index e) s₂
      fun _ t₁ _ t₂ => Store.InStep w s₀ { fresh with bound := (.spaces, e) :: fresh.bound } t₁ t₂ := by
  have hpath : Path.orRoot (s₁.spacePath e) = Path.orRoot (s₂.spacePath e) := by
    refine h.code.space e ?_
    rw [h.input.declared]
    exact he
  have hknown := Store.known_of_declared he
  rw [bindSpace, bindSpace]
  refine abreast_bind (abreast_get ?_)
  refine abreast_bind ((abreast_mapError (abreast_lookUp h hindex hpath)).mono ?_)
  rintro found₁ _ found₂ _ ⟨hfound, rfl, rfl⟩
  cases hfound with
  | some hn => exact abreast_bind (abreast_pure (abreast_bindAt h .spaces hn hknown))
  | none =>
    refine abreast_bind ((createSpace_abreast h hindex hpath).mono ?_)
    rintro n₁ u₁ n₂ u₂ ⟨hn, hu⟩
    exact abreast_bindAt hu .spaces hn hknown

/-- A run of binding binds all its elements to twins. -/
theorem bindSpaces_abreast (h : Store.InStep w s₀ fresh s₁ s₂) (hindex : index ∈ fresh.indexes)
    {es : List ElementId} (hes : ∀ e ∈ es, e ∈ s₀.declared w.set₁ Tree.spaces.kinds) :
    Abreast (bindSpaces w.set₁ index es) s₁ (bindSpaces w.set₂ index es) s₂
      fun _ t₁ _ t₂ =>
        Store.InStep w s₀ { fresh with bound := es.reverse.map (Tree.spaces, ·) ++ fresh.bound } t₁ t₂ := by
  refine abreast_forEach (fun done t₁ t₂ =>
    Store.InStep w s₀ { fresh with bound := done.map (Tree.spaces, ·) ++ fresh.bound } t₁ t₂) h ?_
  intro done e he t₁ t₂ ht
  exact bindSpace_abreast ht hindex (hes e he)

/-! ## Linking -/

/-- Stores in step, with an index beside them into which namespaces are entered. -/
structure Store.Entering (E : Entry → Entry → Prop) (w : Pairing) (s₀ : Store) (fresh : Fresh)
    (elements : String) (s₁ s₂ : Store) : Prop where
  step : Store.InStep w s₀ fresh s₁ s₂
  beside : Store.Beside E w elements s₁ s₂

section Linking

variable (hE : ∀ n₁ n₂, w.Twins n₁ n₂ → E (.node n₁) (.node n₂))

include hE in
theorem enterSpace_abreast (h : Store.Entering E w s₀ fresh elements s₁ s₂) (hn : w.Twins n₁ n₂) :
    Abreast (enterSpace w.set₁ elements n₁ : Build ε Unit) s₁
      (enterSpace w.set₂ elements n₂ : Build ε Unit) s₂
      fun _ t₁ _ t₂ => Store.Entering E w s₀ fresh elements t₁ t₂ := by
  have hkey := (h.step.alike.node n₁ n₂ hn).indexKey
  refine abreast_change ⟨h.step.enter elements hkey hn, ?_⟩
  rw [Store.Beside, Store.index_putEntry, Store.index_putEntry, if_pos rfl, if_pos rfl, hkey]
  exact Ledger.Alike.put h.beside _ (hE _ _ hn)

/-- Hanging a namespace below another under its name. -/
theorem hang_abreast (h : Store.Entering E w s₀ fresh elements s₁ s₂) (hm : w.Twins m₁ m₂)
    (hn : w.Twins n₁ n₂) :
    Abreast (change fun s => s.addChild m₁ (s.node n₁).name n₁ : Build ε Unit) s₁
      (change fun s => s.addChild m₂ (s.node n₂).name n₂ : Build ε Unit) s₂
      fun _ t₁ _ t₂ => Store.Entering E w s₀ fresh elements t₁ t₂ := by
  refine abreast_change ⟨?_, h.beside⟩
  rw [← (h.step.alike.node n₁ n₂ hn).name]
  exact h.step.addChild hm hn _

variable (hindex : index ∈ fresh.indexes) (hother : elements ∉ [index])

include hE hindex hother

/-- **A climb** along the same paths goes as far from twins. -/
theorem climb_abreast (paths : List String) :
    ∀ (s₁ s₂ : Store) (n₁ n₂ : NodeId), Store.Entering E w s₀ fresh elements s₁ s₂ → w.Twins n₁ n₂ →
      Abreast (climb w.set₁ index elements n₁ paths) s₁ (climb w.set₂ index elements n₂ paths) s₂
        fun linked₁ t₁ linked₂ t₂ => linked₁ = linked₂ ∧ Store.Entering E w s₀ fresh elements t₁ t₂ := by
  induction paths with
  | nil =>
    intro s₁ s₂ n₁ n₂ h hn
    rw [climb, climb]
    refine abreast_bind (abreast_get (abreast_bind (abreast_change ?_)))
    exact abreast_pure ⟨rfl, h.step.record _ _ _ _, h.beside⟩
  | cons above rest ih =>
    intro s₁ s₂ n₁ n₂ h hn
    rw [climb, climb]
    refine abreast_bind ((abreast_lookUp h.step hindex rfl).mono ?_)
    rintro found₁ _ found₂ _ ⟨hfound, rfl, rfl⟩
    cases hfound with
    | some hm =>
      refine abreast_bind ((hang_abreast h hm hn).mono ?_)
      intro _ t₁ _ t₂ ht
      exact abreast_pure ⟨rfl, ht⟩
    | none =>
      have hcreate := h.beside.abreast [] [] (createSpace_abreast (ε := IndexMismatch) h.step hindex
        (rfl : above = above)) hother (createSpace_within _ _) (createSpace_within _ _)
      refine abreast_bind (hcreate.mono ?_)
      rintro m₁ t₁ m₂ t₂ ⟨⟨hm, ht⟩, hbeside⟩
      refine abreast_bind ((enterSpace_abreast hE ⟨ht, hbeside⟩ hm).mono ?_)
      intro _ u₁ _ u₂ hu
      refine abreast_bind ((hang_abreast hu hm hn).mono ?_)
      intro _ v₁ _ v₂ hv
      exact ih v₁ v₂ m₁ m₂ hv hm

theorem linkSpace_abreast (h : Store.Entering E w s₀ fresh elements s₁ s₂) (hn : w.Twins n₁ n₂) :
    Abreast (linkSpace w.set₁ index elements n₁) s₁ (linkSpace w.set₂ index elements n₂) s₂
      fun linked₁ t₁ linked₂ t₂ => linked₁ = linked₂ ∧ Store.Entering E w s₀ fresh elements t₁ t₂ := by
  rw [linkSpace, linkSpace]
  refine abreast_bind ((enterSpace_abreast hE h hn).mono ?_)
  intro _ t₁ _ t₂ ht
  refine abreast_bind (abreast_get ?_)
  rw [← (ht.step.alike.node n₁ n₂ hn).lineage]
  exact climb_abreast hE hindex hother _ t₁ t₂ n₁ n₂ ht hn

/-- **A run of linking** over twins passes over the same, links the same, and counts the same. -/
theorem linkSpaces_abreast {ns₁ ns₂ : List NodeId} (hns : List.Forall₂ w.Twins ns₁ ns₂) :
    ∀ s₁ s₂ : Store, Store.Entering E w s₀ fresh elements s₁ s₂ →
      Abreast (linkSpaces w.set₁ index elements ns₁) s₁ (linkSpaces w.set₂ index elements ns₂) s₂
        fun _ t₁ _ t₂ => Store.Entering E w s₀ fresh elements t₁ t₂ := by
  induction hns with
  | nil =>
    intro s₁ s₂ h
    exact abreast_pure h
  | @cons n₁ n₂ ns₁ ns₂ hn _ ih =>
    intro s₁ s₂ h
    have hnode := h.step.alike.node n₁ n₂ hn
    rw [linkSpaces, linkSpaces]
    refine abreast_bind (abreast_get ?_)
    dsimp only
    rw [← hnode.isRoot, ← hnode.isSome_parent]
    split
    · exact ih s₁ s₂ h
    · refine abreast_bind ((linkSpace_abreast hE hindex hother h hn).mono ?_)
      rintro linked₁ t₁ linked₂ t₂ ⟨-, ht⟩
      refine abreast_bind ((ih t₁ t₂ ht).mono ?_)
      intro _ u₁ _ u₂ hu
      exact abreast_pure hu

end Linking

/-! ## The whole tree -/

/-- **Two builds of the namespaces** come to the same: the index, the root, and what declared elements are
    bound to; and if the indexes of elements had the same keys, they have them afterwards. -/
theorem buildSpaces_abreast (h : Store.InStep w s₀ fresh s₁ s₂)
    (hE : ∀ n₁ n₂, w.Twins n₁ n₂ → E (.node n₁) (.node n₂))
    (hbeside : Store.Beside E w elementsIndex s₁ s₂) (hcode : s₀.DescribesCode w.set₁) :
    Abreast (buildSpaces w.set₁) s₁ (buildSpaces w.set₂) s₂ fun _ t₁ _ t₂ =>
      Store.Entering E w s₀ { fresh with
        indexes := Tree.spaces.indexName :: fresh.indexes
        roots := .spaces :: fresh.roots
        bound := (s₀.declared w.set₁ Tree.spaces.kinds).reverse.map (Tree.spaces, ·) ++ fresh.bound }
        elementsIndex t₁ t₂ := by
  obtain ⟨code₁, code₂, hsome₁, hsome₂⟩ := h.exists_code hcode
  have hother : elementsIndex ∉ [Tree.spaces.indexName] := by decide
  have hne : Tree.spaces.indexName ≠ elementsIndex := by decide
  rw [buildSpaces, buildSpaces]
  refine abreast_bind (abreast_get ?_)
  rw [hsome₁, hsome₂]
  have hmake := hbeside.abreast [] [] (abreast_addNode (ε := BindError) h (.single _ _ _))
    List.not_mem_nil (.addNode .spaceRoot s₁) (.addNode .spaceRoot s₂)
  refine abreast_bind (hmake.mono ?_)
  rintro n₁ t₁ n₂ t₂ ⟨⟨hn, ht⟩, hbeside⟩
  have hset := ((ht.setRoot .spaces hn hcode).openIndex elementsIndex).setIndex Tree.spaces.indexName
    (Ledger.Alike.empty.put Path.root (.node hn))
  -- Until the root is entered, the index of elements is as it was.
  have hindex : ∀ (d : SetId) (t : Store) (n : NodeId) (i : Index),
      (((t.updateCode d (·.setRoot .spaces n)).openIndex d elementsIndex .empty).setIndex d
        Tree.spaces.indexName i).index d elementsIndex = t.index d elementsIndex := by
    intro d t n i
    rw [Store.index_setIndex, if_neg hne, Store.index_openIndex, Store.index, Store.index,
      Store.index?_updateCode]
  refine abreast_bind (abreast_change (abreast_bind (abreast_change (abreast_bind (abreast_change ?_)))))
  refine abreast_bind ((enterSpace_abreast hE
    ⟨hset, hbeside.of_index (hindex _ _ _ _) (hindex _ _ _ _)⟩ hn).mono ?_)
  intro _ u₁ _ u₂ hu
  refine abreast_bind (abreast_get ?_)
  rw [← hu.step.code.declared, hu.step.input.declared]
  have hbind := hu.beside.abreast _ _ (bindSpaces_abreast hu.step List.mem_cons_self fun _ he => he) hother
    (bindSpaces_within _ u₁) (bindSpaces_within _ u₂)
  refine abreast_bind (hbind.mono ?_)
  rintro _ v₁ _ v₂ ⟨hv, hbeside⟩
  refine abreast_bind (abreast_get (abreast_bind (abreast_mapError ?_)))
  refine (linkSpaces_abreast hE List.mem_cons_self hother (hv.nodes_index List.mem_cons_self)
    v₁ v₂ ⟨hv, hbeside⟩).mono ?_
  intro _ x₁ _ x₂ hx
  exact abreast_bind (abreast_get (abreast_change ⟨hx.step.record _ _ _ _, hx.beside⟩))

end Docset
