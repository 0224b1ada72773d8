/-
  What a build of a tree writes, and what it leaves alone.

  The passes share one store, and each has a part of it for itself: some indexes, the root of its tree,
  and the bindings of some elements to that tree.  `Store.Within` says that a later store differs from an
  earlier one in such a part alone, apart from nodes and the journal.  That builds keep within their part
  is read off their steps, and holds however they end: a step that fails has written what it had written
  by then (`Build.after`).

  * `Within.bind` puts two steps together, `Within.forEach` is the loop;
  * `Store.Within.setIndex`, `Store.Within.bindTo` and so on are the changes;
  * `buildSpaces_within` and `buildPackages_within` are the two trees.

  Nothing is supposed of the store here, neither the kinds of elements nor that references lead anywhere,
  so this is what is left to say of builds that may fail.
-/
import Docset.Proofs.Twins

namespace Docset

open Build

/-! ## Parts of a store -/

/-- The later store differs, apart from nodes and the journal, in the indexes with the given names, in
    the root of one tree, and in what the given elements are bound to in that tree.  Whoever was bound
    there still is. -/
structure Store.Within (d : SetId) (tree : Tree) (names : List String) (es : List ElementId)
    (s t : Store) : Prop where
  input : Store.SameInput d s t
  settings : (t.docSet d).settings = (s.docSet d).settings
  index : ∀ name, name ∉ names → t.index? d name = s.index? d name
  element : ∀ e, e ∉ es → t.element e = s.element e
  unbound : ∀ e, (t.element e).unbound tree = (s.element e).unbound tree
  bound : ∀ e, ((s.element e).boundTo tree).isSome = true → ((t.element e).boundTo tree).isSome = true

namespace Store.Within

variable {d : SetId} {tree : Tree} {names more : List String} {es fs : List ElementId} {s t u : Store}

theorem refl (d : SetId) (tree : Tree) (names : List String) (es : List ElementId) (s : Store) :
    Within d tree names es s s :=
  ⟨.refl d s, rfl, fun _ _ => rfl, fun _ _ => rfl, fun _ => rfl, fun _ h => h⟩

theorem trans (hst : Within d tree names es s t) (htu : Within d tree names es t u) :
    Within d tree names es s u where
  input := hst.input.trans htu.input
  settings := htu.settings.trans hst.settings
  index := fun name hname => (htu.index name hname).trans (hst.index name hname)
  element := fun e he => (htu.element e he).trans (hst.element e he)
  unbound := fun e => (htu.unbound e).trans (hst.unbound e)
  bound := fun e h => htu.bound e (hst.bound e h)

theorem mono (h : Within d tree names es s t) (hnames : names ⊆ more) (hes : es ⊆ fs) :
    Within d tree more fs s t where
  input := h.input
  settings := h.settings
  index := fun name hname => h.index name fun hmem => hname (hnames hmem)
  element := fun e he => h.element e fun hmem => he (hes hmem)
  unbound := h.unbound
  bound := h.bound

/-! ### Single changes -/

/-- Nodes and the journal belong to nobody. -/
theorem of_eq (helements : t.elements = s.elements) (hsets : t.sets = s.sets) :
    Within d tree names es s t := by
  have helement : ∀ e, t.element e = s.element e := by
    intro e
    rw [Store.element, Store.element, helements]
  have hset : t.docSet d = s.docSet d := by
    rw [Store.docSet, Store.docSet, hsets]
  refine ⟨.of_eq helements hsets, congrArg DocSet.settings hset, fun name _ => ?_, fun e _ => helement e,
    fun e => congrArg _ (helement e), fun e h => ?_⟩
  · rw [Store.index?, Store.index?, hset]
  · rw [helement]
    exact h

theorem setIndex (s : Store) {name : String} (hname : name ∈ names) (index : Index) :
    Within d tree names es s (s.setIndex d name index) := by
  refine ⟨.setIndex s d name index, ?_, fun other hother => ?_, fun _ _ => rfl, fun _ => rfl,
    fun _ h => h⟩
  · rw [Store.setIndex, docSet_updateSet]
  · have hne : name ≠ other := by
      rintro rfl
      exact hother hname
    rw [index?_setIndex, if_neg hne]

theorem openIndex (s : Store) {name : String} (hname : name ∈ names) (index : Index) :
    Within d tree names es s (s.openIndex d name index) := by
  rw [Store.openIndex]
  split
  · exact refl d tree names es s
  · exact setIndex s hname index

theorem setRoot (s : Store) (tree : Tree) (n : NodeId) :
    Within d tree names es s (s.updateCode d (·.setRoot tree n)) := by
  refine ⟨.updateCode s d (·.files_setRoot tree n), ?_, fun other _ => ?_, fun _ _ => rfl, fun _ => rfl,
    fun _ h => h⟩
  · rw [Store.updateCode, docSet_updateSet]
  · rw [Store.updateCode, Store.index?, docSet_updateSet]
    rfl

theorem bindTo (s : Store) {e : ElementId} (he : e ∈ es) (n : NodeId) :
    Within d tree names es s (s.updateElement e (.bindTo tree n)) := by
  refine ⟨.updateElement s d e (Element.fixed_bindTo tree n), rfl, fun _ _ => rfl, fun x hx => ?_,
    fun x => ?_, fun x h => ?_⟩
  · have hne : x ≠ e := by
      rintro rfl
      exact hx he
    rw [element_updateElement, if_neg hne]
  · rw [element_updateElement]
    split
    · exact Element.unbound_bindTo tree n _
    · rfl
  · rw [element_updateElement]
    split
    · rw [Element.boundTo_bindTo, if_pos rfl]
      rfl
    · exact h

end Store.Within

/-! ## Steps -/

namespace Build

variable {δ ε α β : Type}

/-- The store after a step, whether it ends well or fails. -/
def after (step : Build ε α) (s : Store) : Store :=
  match step s with
  | .ok _ t => t
  | .error _ t => t

/-- However the step ends, it has kept within a part of the store. -/
def Within (d : SetId) (tree : Tree) (names : List String) (es : List ElementId) (step : Build ε α)
    (s : Store) : Prop :=
  Store.Within d tree names es s (after step s)

namespace Within

variable {d : SetId} {tree : Tree} {names more : List String} {es fs : List ElementId} {s : Store}

/-- A step that ends well has kept within its part. -/
theorem of_ok {step : Build ε α} (h : Within d tree names es step s) {a : α} {t : Store}
    (hrun : step s = .ok a t) : Store.Within d tree names es s t := by
  rw [Within, after, hrun] at h
  exact h

theorem mono {step : Build ε α} (h : Within d tree names es step s) (hnames : names ⊆ more)
    (hes : es ⊆ fs) : Within d tree more fs step s :=
  Store.Within.mono h hnames hes

/-! ### Putting steps together -/

theorem pure (a : α) (s : Store) : Within d tree names es (pure a : Build ε α) s :=
  .refl d tree names es s

theorem bind {step : Build ε α} {next : α → Build ε β} (hstep : Within d tree names es step s)
    (hnext : ∀ a t, Store.Within d tree names es s t → Within d tree names es (next a) t) :
    Within d tree names es (step >>= next) s := by
  have hbind : (step >>= next) s = EStateM.bind step next s := rfl
  rw [Within, after, hbind, EStateM.bind]
  rw [Within, after] at hstep
  cases hrun : step s with
  | error e t =>
    rw [hrun] at hstep
    exact hstep
  | ok a t =>
    rw [hrun] at hstep
    exact hstep.trans (hnext a t hstep)

/-- What comes after a look at the store may go by what it saw. -/
theorem bind_get {next : Store → Build ε β} (hnext : Within d tree names es (next s) s) :
    Within d tree names es (get >>= next) s :=
  hnext

theorem mapError {f : δ → ε} {step : Build δ α} (h : Within d tree names es step s) :
    Within d tree names es (mapError f step) s := by
  rw [Within, after] at h
  rw [Within, after, Build.mapError]
  cases hrun : step s with
  | error e t =>
    rw [hrun] at h
    exact h
  | ok a t =>
    rw [hrun] at h
    exact h

theorem forEach {step : α → Build ε Unit} {as : List α}
    (hstep : ∀ a ∈ as, ∀ t, Within d tree names es (step a) t) :
    ∀ s, Within d tree names es (forEach step as) s := by
  induction as with
  | nil =>
    intro s
    exact .pure () s
  | cons a rest ih =>
    intro s
    refine .bind (hstep a List.mem_cons_self s) fun _ t _ => ?_
    exact ih (fun x hx => hstep x (List.mem_cons_of_mem _ hx)) t

/-! ### Steps on the store -/

theorem change {f : Store → Store} (h : Store.Within d tree names es s (f s)) :
    Within d tree names es (change f : Build ε Unit) s := h

theorem debug (logger text : String) (s : Store) :
    Within d tree names es (debug logger text : Build ε Unit) s := .change (.of_eq rfl rfl)

theorem addNode (n : Node) (s : Store) : Within d tree names es (addNode n : Build ε NodeId) s :=
  Store.Within.of_eq rfl rfl

theorem addChild (parent child : NodeId) (key : Store → String) (s : Store) :
    Within d tree names es (Build.change fun s => s.addChild parent (key s) child : Build ε Unit) s :=
  .change (.of_eq rfl rfl)

theorem putEntry {name : String} (hname : name ∈ names) (key : Store → String) (entry : Entry)
    (s : Store) :
    Within d tree names es (Build.change fun s => s.putEntry d name (key s) entry : Build ε Unit) s :=
  .change (.setIndex s hname _)

theorem lookUp (wanted : Tree) (index key : String) (s : Store) :
    Within d tree names es (lookUp wanted d index key) s := by
  rw [Within, after, Build.lookUp]
  cases s.lookUp wanted d index key with
  | error e => exact .refl d tree names es s
  | ok found => exact .refl d tree names es s

/-- Binding an element and filing it, wherever and whether or not it fits there. -/
theorem bindAt {e : ElementId} (he : e ∈ es) (n : NodeId) (s : Store) :
    Within d tree names es (do Build.change (·.updateElement e (.bindTo tree n)); fileAt n e) s := by
  refine .bind (.change (.bindTo s he n)) fun _ t _ => ?_
  rw [Within, after, Build.fileAt, Store.fileAt]
  cases (t.node n).collection (t.element e).kind with
  | error m => exact .refl d tree names es t
  | ok held => exact .of_eq rfl rfl

end Within

/-- However the step ends, the indexes of the set are as they were, but for those with the given
    names. -/
def WritesOnly (d : SetId) (names : List String) (step : Build ε α) : Prop :=
  ∀ s name, name ∉ names → (after step s).index? d name = s.index? d name

/-- What is not written is found unchanged after a step that ends well. -/
theorem WritesOnly.index_eq {d : SetId} {names : List String} {step : Build ε α}
    (h : WritesOnly d names step) {name : String} (hname : name ∉ names) {s t : Store} {a : α}
    (hrun : step s = .ok a t) : t.index d name = s.index d name := by
  have hsame := h s name hname
  rw [after, hrun] at hsame
  rw [Store.index, Store.index, hsame]

end Build

section Trees

variable {ε : Type} {d : SetId} {index elements : String} {es : List ElementId}

/-! ## The tree of namespaces -/

theorem createSpace_within (path : String) (s : Store) :
    Within d .spaces [index] es (createSpace d index path : Build ε NodeId) s := by
  refine .bind (.addNode _ s) fun n t _ => ?_
  exact .bind (.putEntry List.mem_cons_self (fun _ => path) _ t) fun _ u _ => .pure n u

theorem bindSpace_within {e : ElementId} (he : e ∈ es) (s : Store) :
    Within d .spaces [index] es (bindSpace d index e) s := by
  refine .bind_get (.bind (.mapError (.lookUp _ _ _ s)) fun found t _ => ?_)
  cases found with
  | some n => exact .bind (.pure n t) fun m u _ => .bindAt he m u
  | none => exact .bind (createSpace_within _ t) fun m u _ => .bindAt he m u

theorem bindSpaces_within (es : List ElementId) (s : Store) :
    Within d .spaces [index] es (bindSpaces d index es) s :=
  .forEach (fun _ he t => bindSpace_within he t) s

theorem enterSpace_within (n : NodeId) (s : Store) :
    Within d .spaces [index, elements] es (enterSpace d elements n : Build ε Unit) s :=
  .putEntry (List.mem_cons_of_mem _ List.mem_cons_self) _ _ s

theorem climb_within (paths : List String) :
    ∀ n s, Within d .spaces [index, elements] es (climb d index elements n paths) s := by
  have hcreate : ∀ path s, Within d .spaces [index, elements] es
      (createSpace d index path : Build IndexMismatch NodeId) s := fun path s =>
    (createSpace_within path s).mono (List.cons_subset_cons _ (List.nil_subset _)) (List.Subset.refl _)
  induction paths with
  | nil =>
    intro n s
    exact .bind_get (.bind (.debug _ _ s) fun _ t _ => .pure false t)
  | cons above rest ih =>
    intro n s
    refine .bind (.lookUp _ _ _ s) fun found t _ => ?_
    cases found with
    | some parent => exact .bind (.addChild parent n _ t) fun _ u _ => .pure true u
    | none =>
      refine .bind (hcreate above t) fun parent u _ => .bind (enterSpace_within parent u) fun _ v _ => ?_
      exact .bind (.addChild parent n _ v) fun _ w _ => ih parent w

theorem linkSpaces_within (ns : List NodeId) :
    ∀ s, Within d .spaces [index, elements] es (linkSpaces d index elements ns) s := by
  induction ns with
  | nil =>
    intro s
    exact .pure 0 s
  | cons n rest ih =>
    intro s
    refine .bind_get ?_
    dsimp only
    split
    · exact ih s
    · have hlink : Within d .spaces [index, elements] es (linkSpace d index elements n) s :=
        .bind (enterSpace_within n s) fun _ t _ => .bind_get (climb_within _ n t)
      exact .bind hlink fun _ t _ => .bind (ih t) fun _ u _ => .pure _ u

/-- **The tree of namespaces** is written in its own index and in that of elements, and binds what is
    declared. -/
theorem buildSpaces_within (d : SetId) (s : Store) :
    Within d .spaces [Tree.spaces.indexName, elementsIndex] (s.declared d Tree.spaces.kinds)
      (buildSpaces d) s := by
  have hown : Tree.spaces.indexName ∈ [Tree.spaces.indexName, elementsIndex] := List.mem_cons_self
  have helements : elementsIndex ∈ [Tree.spaces.indexName, elementsIndex] :=
    List.mem_cons_of_mem _ List.mem_cons_self
  refine .bind_get ?_
  cases (s.docSet d).code with
  | none => exact .pure () s
  | some code =>
    refine .bind (.addNode _ s) fun root t₁ h₁ => ?_
    refine .bind (.change (.setRoot t₁ .spaces root)) fun _ t₂ h₂ => ?_
    refine .bind (.change (.openIndex t₂ helements _)) fun _ t₃ h₃ => ?_
    refine .bind (.change (.setIndex t₃ hown _)) fun _ t₄ h₄ => ?_
    refine .bind (enterSpace_within root t₄) fun _ t₅ h₅ => .bind_get ?_
    have hdeclared : t₅.declared d Tree.spaces.kinds = s.declared d Tree.spaces.kinds :=
      (h₁.trans (h₂.trans (h₃.trans (h₄.trans h₅)))).input.declared _
    have hbind : Within d .spaces [Tree.spaces.indexName, elementsIndex]
        (s.declared d Tree.spaces.kinds)
        (bindSpaces d Tree.spaces.indexName (t₅.declared d Tree.spaces.kinds)) t₅ := by
      rw [hdeclared]
      exact (bindSpaces_within _ t₅).mono (List.cons_subset_cons _ (List.nil_subset _))
        (List.Subset.refl _)
    refine .bind hbind fun _ t₆ _ => .bind_get (.bind (.mapError (linkSpaces_within _ t₆)) ?_)
    exact fun _ t₇ _ => .bind_get (.debug _ _ t₇)

/-- The indexes of others are as they were. -/
theorem buildSpaces_writes (d : SetId) :
    WritesOnly d [Tree.spaces.indexName, elementsIndex] (buildSpaces d) :=
  fun s => Store.Within.index (buildSpaces_within d s)

/-! ## The tree of packages -/

theorem openChild_within (parent : NodeId) (path name : String) (s : Store) :
    Within d .packages [index] es (openChild d index parent path name : Build ε NodeId) s := by
  refine .bind_get ?_
  split
  · exact .pure _ s
  · refine .bind (.addNode _ s) fun child t _ => .bind (.addChild parent child (fun _ => _) t) ?_
    refine fun _ u _ => .bind (.putEntry List.mem_cons_self (fun _ => path) _ u) fun _ v _ => ?_
    exact .bind (.debug _ _ v) fun _ w _ => .pure child w

theorem descend_within (names : List String) :
    ∀ here path s,
      Within d .packages [index] es (descend d index here path names : Build ε NodeId) s := by
  induction names with
  | nil =>
    intro here _ s
    exact .pure here s
  | cons name rest ih =>
    intro here path s
    exact .bind (openChild_within here _ name s) fun child t _ => ih child _ t

theorem growPackage_within (name : String) (s : Store) :
    Within d .packages [index] es (growPackage d index name) s := by
  have hroot : Within d .packages [index] es (openPackageRoot d index) s := by
    refine .bind (.lookUp _ _ _ s) fun found t _ => ?_
    cases found with
    | some root => exact .pure root t
    | none =>
      refine .bind (.addNode _ t) fun root u _ => ?_
      exact .bind (.putEntry List.mem_cons_self (fun _ => _) _ u) fun _ v _ => .pure root v
  exact .bind hroot fun root t _ => descend_within _ root _ t

theorem bindPackage_within {e : ElementId} (he : e ∈ es) (s : Store) :
    Within d .packages [index] es (bindPackage d index e) s := by
  refine .bind_get (.bind (.mapError (.bind (.lookUp _ _ _ s) fun found t _ => ?_)) fun n t _ => ?_)
  · cases found with
    | some n => exact .pure n t
    | none => exact growPackage_within _ t
  · exact .bindAt he n t

/-- **The tree of packages** is written in its own index alone, and binds files and what is declared for
    packages. -/
theorem buildPackages_within (d : SetId) (s : Store) :
    Within d .packages [Tree.packages.indexName] (s.packaged d) (buildPackages d) s := by
  refine .bind_get ?_
  cases (s.docSet d).code with
  | none => exact .pure () s
  | some code =>
    refine .bind (.addNode _ s) fun root t₁ h₁ => ?_
    refine .bind (.change (.setRoot t₁ .packages root)) fun _ t₂ h₂ => ?_
    refine .bind (.change (.setIndex t₂ List.mem_cons_self _)) fun _ t₃ h₃ => .bind_get ?_
    have hpackaged : t₃.packaged d = s.packaged d := (h₁.trans (h₂.trans h₃)).input.packaged
    have hbind : Within d .packages [Tree.packages.indexName] (s.packaged d)
        (bindPackages d Tree.packages.indexName (t₃.packaged d)) t₃ := by
      rw [hpackaged]
      exact .forEach (fun e he t => bindPackage_within he t) t₃
    exact .bind hbind fun _ t₄ _ => .bind_get (.debug _ _ t₄)

/-- The indexes of others are as they were. -/
theorem buildPackages_writes (d : SetId) :
    WritesOnly d [Tree.packages.indexName] (buildPackages d) :=
  fun s => Store.Within.index (buildPackages_within d s)

end Trees

end Docset
