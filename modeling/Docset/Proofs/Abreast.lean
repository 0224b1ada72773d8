/-
  Steps that are taken side by side.

  `Abreast step₁ s₁ step₂ s₂ Q` says that if both steps end well, their answers and the stores after them
  are as `Q` says.  It does not say that they do: that is what `Ensures` is for.  There is a rule for each
  way in which steps are made, so what two builds have in common is read off the one definition that both
  go by, rule by rule.

  `Store.InStep` is the relation that all steps keep: the stores have the same code (`SameCode`) and are
  alike in what has been made anew (`Alike`).  The first is what a step reads, the second what it writes.
-/
import Docset.Proofs.Build
import Docset.Proofs.Reading
import Docset.Proofs.Twins

namespace Docset

open Build

/-! ## The relation -/

/-- Two stores in the midst of two builds of the same code, of which the first began on `s₀`. -/
structure Store.InStep (w : Pairing) (s₀ : Store) (fresh : Fresh) (s₁ s₂ : Store) : Prop where
  input : Store.SameInput w.set₁ s₀ s₁
  code : s₁.SameCode w.set₁ s₂ w.set₂
  alike : Store.Alike w fresh s₁ s₂

/-- Two sets with the same code are in step in the beginning. -/
theorem Store.SameCode.inStep {s₁ s₂ : Store} {d₁ d₂ : SetId} (h : s₁.SameCode d₁ s₂ d₂) :
    Store.InStep ⟨d₁, s₁.nodes.size, d₂, s₂.nodes.size⟩ s₁ .nothing s₁ s₂ :=
  ⟨.refl d₁ s₁, h, .start d₁ d₂ s₁ s₂⟩

namespace Store.InStep

variable {w : Pairing} {fresh later : Fresh} {s₀ s₁ s₂ t₁ t₂ : Store} {n₁ n₂ m₁ m₂ : NodeId}

/-- Stores that are alike go on in step as long as what builds read is left alone. -/
theorem of_reading (h : InStep w s₀ fresh s₁ s₂) (h₁ : SameReading w.set₁ s₁ t₁)
    (h₂ : SameReading w.set₂ s₂ t₂) (halike : Alike w later t₁ t₂) : InStep w s₀ later t₁ t₂ where
  input := h.input.trans h₁.input
  code := h.code.of_reading h₁ h₂
  alike := halike

/-- Both sets describe source code, if the first did in the beginning. -/
theorem exists_code (h : InStep w s₀ fresh s₁ s₂) (hcode : s₀.DescribesCode w.set₁) :
    ∃ code₁ code₂, (s₁.docSet w.set₁).code = some code₁ ∧ (s₂.docSet w.set₂).code = some code₂ := by
  have hcode₁ := h.input.describesCode hcode
  obtain ⟨code₁, hsome₁⟩ := Option.isSome_iff_exists.1 hcode₁
  obtain ⟨code₂, hsome₂⟩ := Option.isSome_iff_exists.1 (h.code.describesCode hcode₁)
  exact ⟨code₁, code₂, hsome₁, hsome₂⟩

/-- An index that is made anew lists twins, in the same order. -/
theorem nodes_index (h : InStep w s₀ fresh s₁ s₂) {name : String} (hname : name ∈ fresh.indexes) :
    List.Forall₂ w.Twins (Index.nodes (s₁.index w.set₁ name))
      (Index.nodes (s₂.index w.set₂ name)) := by
  obtain ⟨i₁, i₂, hi₁, hi₂, hi⟩ := h.alike.index name hname
  rw [Store.index, Store.index, hi₁, hi₂]
  exact Index.nodes_alike hi

/-- Changes that no build notices keep stores in step. -/
theorem of_inert (h : InStep w s₀ fresh s₁ s₂) (h₁ : Store.Inert w.set₁ s₁ t₁)
    (h₂ : Store.Inert w.set₂ s₂ t₂) : InStep w s₀ fresh t₁ t₂ :=
  h.of_reading (.of_inert h₁ h.code.resolved₁) (.of_inert h₂ h.code.resolved₂) (h.alike.of_inert h₁ h₂)

theorem record (h : InStep w s₀ fresh s₁ s₂) (logger : String) (level : Level) (text₁ text₂ : String) :
    InStep w s₀ fresh (s₁.record logger level text₁) (s₂.record logger level text₂) :=
  h.of_inert (.record s₁ _ _ _ _) (.record s₂ _ _ _ _)

theorem addNode (h : InStep w s₀ fresh s₁ s₂) {x₁ x₂ : Node} (hx : Node.Alike w.Twins x₁ x₂) :
    InStep w s₀ fresh (s₁.addNode x₁).1 (s₂.addNode x₂).1 :=
  h.of_reading (.of_addNode h.code.resolved₁ x₁) (.of_addNode h.code.resolved₂ x₂) (h.alike.addNode hx)

theorem addChild (h : InStep w s₀ fresh s₁ s₂) (hm : w.Twins m₁ m₂) (hn : w.Twins n₁ n₂) (key : String) :
    InStep w s₀ fresh (s₁.addChild m₁ key n₁) (s₂.addChild m₂ key n₂) :=
  h.of_reading (.of_addChild h.code.resolved₁ m₁ n₁ key) (.of_addChild h.code.resolved₂ m₂ n₂ key)
    (h.alike.addChild hm hn key)

theorem setIndex (h : InStep w s₀ fresh s₁ s₂) (name : String) {i₁ i₂ : Index}
    (hi : Ledger.Alike (Entry.Alike w.Twins) i₁ i₂) :
    InStep w s₀ { fresh with indexes := name :: fresh.indexes } (s₁.setIndex w.set₁ name i₁)
      (s₂.setIndex w.set₂ name i₂) :=
  h.of_reading (.of_setIndex h.code.resolved₁ name i₁) (.of_setIndex h.code.resolved₂ name i₂)
    (h.alike.setIndex name hi)

theorem putEntry (h : InStep w s₀ fresh s₁ s₂) {name : String} (hname : name ∈ fresh.indexes)
    {key₁ key₂ : String} (hkey : key₁ = key₂) {x₁ x₂ : Entry} (hx : Entry.Alike w.Twins x₁ x₂) :
    InStep w s₀ fresh (s₁.putEntry w.set₁ name key₁ x₁) (s₂.putEntry w.set₂ name key₂ x₂) := by
  subst hkey
  exact h.of_reading (.of_setIndex h.code.resolved₁ name _) (.of_setIndex h.code.resolved₂ name _)
    (h.alike.putEntry hname key₁ hx)

/-- An index that is not among those made anew may be written at will, in either store. -/
theorem setAside (h : InStep w s₀ fresh s₁ s₂) {name : String} (hname : name ∉ fresh.indexes)
    (i₁ i₂ : Index) : InStep w s₀ fresh (s₁.setIndex w.set₁ name i₁) (s₂.setIndex w.set₂ name i₂) :=
  h.of_reading (.of_setIndex h.code.resolved₁ name i₁) (.of_setIndex h.code.resolved₂ name i₂)
    ((h.alike.setAside_left hname i₁).setAside_right hname i₂)

/-- Twins may be entered in any index, made anew or not. -/
theorem enter (h : InStep w s₀ fresh s₁ s₂) (name : String) {key₁ key₂ : String} (hkey : key₁ = key₂)
    (hn : w.Twins n₁ n₂) : InStep w s₀ fresh (s₁.putEntry w.set₁ name key₁ (.node n₁))
      (s₂.putEntry w.set₂ name key₂ (.node n₂)) := by
  by_cases hname : name ∈ fresh.indexes
  · exact h.putEntry hname hkey (.node hn)
  · exact h.setAside hname _ _

/-- An index that is made anew is there in both stores, and another one may be opened in either. -/
theorem openIndex (h : InStep w s₀ fresh s₁ s₂) (name : String) :
    InStep w s₀ fresh (s₁.openIndex w.set₁ name .empty) (s₂.openIndex w.set₂ name .empty) := by
  by_cases hname : name ∈ fresh.indexes
  · obtain ⟨i₁, i₂, hi₁, hi₂, -⟩ := h.alike.index name hname
    rw [Store.openIndex, Store.openIndex, hi₁, hi₂]
    exact h
  · refine h.of_reading (.of_openIndex h.code.resolved₁ name) (.of_openIndex h.code.resolved₂ name) ?_
    rcases s₁.openIndex_cases w.set₁ name .empty with h₁ | h₁ <;>
      rcases s₂.openIndex_cases w.set₂ name .empty with h₂ | h₂ <;> rw [h₁, h₂]
    · exact h.alike
    · exact h.alike.setAside_right hname _
    · exact h.alike.setAside_left hname _
    · exact (h.alike.setAside_left hname _).setAside_right hname _

theorem setRoot (h : InStep w s₀ fresh s₁ s₂) (tree : Tree) (hn : w.Twins n₁ n₂)
    (hcode : s₀.DescribesCode w.set₁) :
    InStep w s₀ { fresh with roots := tree :: fresh.roots }
      (s₁.updateCode w.set₁ (·.setRoot tree n₁)) (s₂.updateCode w.set₂ (·.setRoot tree n₂)) := by
  obtain ⟨code₁, code₂, hsome₁, hsome₂⟩ := h.exists_code hcode
  exact h.of_reading (.of_updateCode h.code.resolved₁ (·.files_setRoot tree n₁))
    (.of_updateCode h.code.resolved₂ (·.files_setRoot tree n₂)) (h.alike.setRoot tree hn hsome₁ hsome₂)

/-! ### Bindings -/

/-- An element that is bound to twins of a tree, and filed there, is bound anew. -/
theorem bindAt (h : InStep w s₀ fresh s₁ s₂) (tree : Tree) (hn : w.Twins n₁ n₂) {e : ElementId}
    (he : s₀.Known w.set₁ e) :
    InStep w s₀ { fresh with bound := (tree, e) :: fresh.bound } (s₁.bindAt e n₁ (.bindTo tree n₁))
      (s₂.bindAt e n₂ (.bindTo tree n₂)) := by
  have hkind := h.code.kind (h.input.known.2 he)
  have hfixed := Element.fixed_bindTo tree
  refine ⟨h.input.trans (sameInput_bindAt _ _ _ _ (hfixed n₁)), ?_, ?_⟩
  · cases tree with
    | spaces => exact h.code.bindToSpace e (h.alike.node n₁ n₂ hn).path
    | packages =>
      exact h.code.of_reading (.of_bindAt h.code.resolved₁ e n₁ (hfixed n₁) fun _ => rfl)
        (.of_bindAt h.code.resolved₂ e n₂ (hfixed n₂) fun _ => rfl)
  · rw [Store.bindAt, Store.bindAt, ← hkind]
    exact (h.alike.bindTo tree hn e).fileAt hn (s₁.element e).kind e

end Store.InStep

/-! ## The rules -/

namespace Build

variable {δ ε α β α' β' : Type}

/-- If both steps end well, their answers and the stores after them are as in `Q`. -/
def Abreast (step₁ : Build ε α) (s₁ : Store) (step₂ : Build ε β) (s₂ : Store)
    (Q : α → Store → β → Store → Prop) : Prop :=
  ∀ a t₁ b t₂, step₁ s₁ = .ok a t₁ → step₂ s₂ = .ok b t₂ → Q a t₁ b t₂

theorem Abreast.mono {step₁ : Build ε α} {step₂ : Build ε β} {s₁ s₂ : Store}
    {Q R : α → Store → β → Store → Prop} (h : Abreast step₁ s₁ step₂ s₂ Q)
    (hQR : ∀ a t₁ b t₂, Q a t₁ b t₂ → R a t₁ b t₂) : Abreast step₁ s₁ step₂ s₂ R :=
  fun a t₁ b t₂ h₁ h₂ => hQR a t₁ b t₂ (h a t₁ b t₂ h₁ h₂)

theorem abreast_pure {a : α} {b : β} {s₁ s₂ : Store} {Q : α → Store → β → Store → Prop}
    (h : Q a s₁ b s₂) : Abreast (pure a : Build ε α) s₁ (pure b : Build ε β) s₂ Q := by
  intro a' t₁ b' t₂ h₁ h₂
  cases h₁
  cases h₂
  exact h

theorem abreast_bind {step₁ : Build ε α} {step₂ : Build ε β} {next₁ : α → Build ε α'}
    {next₂ : β → Build ε β'} {s₁ s₂ : Store} {Q : α' → Store → β' → Store → Prop}
    (h : Abreast step₁ s₁ step₂ s₂ fun a t₁ b t₂ => Abreast (next₁ a) t₁ (next₂ b) t₂ Q) :
    Abreast (step₁ >>= next₁) s₁ (step₂ >>= next₂) s₂ Q := by
  intro a' u₁ b' u₂ h₁ h₂
  obtain ⟨a, t₁, hstep₁, hnext₁⟩ := ok_of_bind h₁
  obtain ⟨b, t₂, hstep₂, hnext₂⟩ := ok_of_bind h₂
  exact h a t₁ b t₂ hstep₁ hstep₂ a' u₁ b' u₂ hnext₁ hnext₂

theorem abreast_mapError {f : δ → ε} {step₁ : Build δ α} {step₂ : Build δ β} {s₁ s₂ : Store}
    {Q : α → Store → β → Store → Prop} (h : Abreast step₁ s₁ step₂ s₂ Q) :
    Abreast (mapError f step₁) s₁ (mapError f step₂) s₂ Q :=
  fun a t₁ b t₂ h₁ h₂ => h a t₁ b t₂ (ok_of_mapError h₁) (ok_of_mapError h₂)

/-- What each step ensures by itself holds of two steps. -/
theorem Ensures.abreast {step₁ : Build ε α} {step₂ : Build ε β} {s₁ s₂ : Store}
    {Q₁ : α → Store → Prop} {Q₂ : β → Store → Prop} (h₁ : Ensures step₁ s₁ Q₁)
    (h₂ : Ensures step₂ s₂ Q₂) :
    Abreast step₁ s₁ step₂ s₂ fun a t₁ b t₂ => Q₁ a t₁ ∧ Q₂ b t₂ := by
  intro a t₁ b t₂ hrun₁ hrun₂
  obtain ⟨a', t₁', hrun₁', hQ₁⟩ := h₁
  obtain ⟨b', t₂', hrun₂', hQ₂⟩ := h₂
  rw [hrun₁] at hrun₁'
  rw [hrun₂] at hrun₂'
  cases hrun₁'
  cases hrun₂'
  exact ⟨hQ₁, hQ₂⟩

/-! ### Steps on the store -/

theorem abreast_get {s₁ s₂ : Store} {Q : Store → Store → Store → Store → Prop}
    (h : Q s₁ s₁ s₂ s₂) : Abreast (get : Build ε Store) s₁ (get : Build ε Store) s₂ Q := by
  intro a t₁ b t₂ h₁ h₂
  cases h₁
  cases h₂
  exact h

theorem abreast_change {f₁ f₂ : Store → Store} {s₁ s₂ : Store} {Q : Unit → Store → Unit → Store → Prop}
    (h : Q () (f₁ s₁) () (f₂ s₂)) :
    Abreast (change f₁ : Build ε Unit) s₁ (change f₂ : Build ε Unit) s₂ Q := by
  intro a t₁ b t₂ h₁ h₂
  cases h₁
  cases h₂
  exact h

theorem abreast_set {s₁ s₂ t₁ t₂ : Store} {Q : PUnit → Store → PUnit → Store → Prop}
    (h : Q ⟨⟩ t₁ ⟨⟩ t₂) :
    Abreast (set t₁ : Build ε PUnit) s₁ (set t₂ : Build ε PUnit) s₂ Q := by
  intro a u₁ b u₂ h₁ h₂
  cases h₁
  cases h₂
  exact h

section InStep

variable {w : Pairing} {fresh : Fresh} {s₀ s₁ s₂ : Store}

/-- What is recorded may differ. -/
theorem abreast_debug (h : Store.InStep w s₀ fresh s₁ s₂) (logger text₁ text₂ : String) :
    Abreast (debug logger text₁ : Build ε Unit) s₁ (debug logger text₂ : Build ε Unit) s₂
      fun _ t₁ _ t₂ => Store.InStep w s₀ fresh t₁ t₂ :=
  abreast_change (h.record _ _ _ _)

/-- An index that is made anew in both stores is new from then on. -/
theorem abreast_setIndex (h : Store.InStep w s₀ fresh s₁ s₂) (name : String) {i₁ i₂ : Index}
    (hi : Ledger.Alike (Entry.Alike w.Twins) i₁ i₂) :
    Abreast (change (·.setIndex w.set₁ name i₁) : Build ε Unit) s₁
      (change (·.setIndex w.set₂ name i₂) : Build ε Unit) s₂ fun _ t₁ _ t₂ =>
        Store.InStep w s₀ { fresh with indexes := name :: fresh.indexes } t₁ t₂ :=
  abreast_change (h.setIndex name hi)

/-- Nodes that are made at one moment are twins. -/
theorem abreast_addNode (h : Store.InStep w s₀ fresh s₁ s₂) {x₁ x₂ : Node}
    (hx : Node.Alike w.Twins x₁ x₂) :
    Abreast (addNode x₁ : Build ε NodeId) s₁ (addNode x₂ : Build ε NodeId) s₂
      fun n₁ t₁ n₂ t₂ => w.Twins n₁ n₂ ∧ Store.InStep w s₀ fresh t₁ t₂ := by
  intro n₁ t₁ n₂ t₂ h₁ h₂
  cases h₁
  cases h₂
  exact ⟨h.alike.next, h.addNode hx⟩

/-- In an index made anew, one key leads to twins, or both times to nothing. -/
theorem abreast_lookUp (h : Store.InStep w s₀ fresh s₁ s₂) {tree : Tree} {index key₁ key₂ : String}
    (hindex : index ∈ fresh.indexes) (hkey : key₁ = key₂) :
    Abreast (lookUp tree w.set₁ index key₁) s₁ (lookUp tree w.set₂ index key₂) s₂
      fun found₁ t₁ found₂ t₂ => Option.Rel w.Twins found₁ found₂ ∧ t₁ = s₁ ∧ t₂ = s₂ := by
  intro found₁ t₁ found₂ t₂ h₁ h₂
  obtain ⟨i₁, i₂, hi₁, hi₂, hi⟩ := h.alike.index index hindex
  subst hkey
  rw [lookUp, Store.lookUp, Store.index, hi₁, Option.getD_some] at h₁
  rw [lookUp, Store.lookUp, Store.index, hi₂, Option.getD_some] at h₂
  have hget := hi.get? key₁
  generalize i₁.get? key₁ = found at hget h₁
  generalize i₂.get? key₁ = found' at hget h₂
  cases hget with
  | none =>
    cases h₁
    cases h₂
    exact ⟨.none, rfl, rfl⟩
  | some hentry =>
    cases hentry with
    | element e => cases h₁
    | @node n₁ n₂ hn =>
      have htree := (h.alike.node n₁ n₂ hn).tree
      dsimp only at h₁ h₂
      rw [← htree] at h₂
      by_cases hgood : (s₁.node n₁).tree = tree
      · rw [if_pos hgood] at h₁ h₂
        cases h₁
        cases h₂
        exact ⟨.some hn, rfl, rfl⟩
      · rw [if_neg hgood] at h₁
        cases h₁

/-- **Binding an element** to twins of a tree, and filing it there. -/
theorem abreast_bindAt (h : Store.InStep w s₀ fresh s₁ s₂) (tree : Tree) {n₁ n₂ : NodeId}
    (hn : w.Twins n₁ n₂) {e : ElementId} (he : s₀.Known w.set₁ e) :
    Abreast (do change (·.updateElement e (.bindTo tree n₁)); fileAt n₁ e) s₁
      (do change (·.updateElement e (.bindTo tree n₂)); fileAt n₂ e) s₂
      fun _ t₁ _ t₂ => Store.InStep w s₀ { fresh with bound := (tree, e) :: fresh.bound } t₁ t₂ := by
  have hkind : ∀ (n : NodeId) (x : Element), (x.bindTo tree n).kind = x.kind := fun n x =>
    (congrArg Element.kind (Element.fixed_bindTo tree n x) :)
  refine abreast_bind (abreast_change fun a t₁ b t₂ hfile₁ hfile₂ => ?_)
  rw [ok_of_bindAt (hkind n₁) hfile₁, ok_of_bindAt (hkind n₂) hfile₂]
  exact h.bindAt tree hn he

end InStep

/-! ### Loops -/

/-- **The loop rule** for two loops over one list. -/
theorem abreast_forEach {step₁ step₂ : α → Build ε Unit} {as : List α} {s₁ s₂ : Store}
    (I : List α → Store → Store → Prop) (hstart : I [] s₁ s₂)
    (hstep : ∀ done a, a ∈ as → ∀ t₁ t₂, I done t₁ t₂ →
      Abreast (step₁ a) t₁ (step₂ a) t₂ fun _ u₁ _ u₂ => I (a :: done) u₁ u₂) :
    Abreast (forEach step₁ as) s₁ (forEach step₂ as) s₂ fun _ t₁ _ t₂ => I as.reverse t₁ t₂ := by
  have hloop : ∀ rest done t₁ t₂, (∀ a ∈ rest, a ∈ as) → I done t₁ t₂ →
      Abreast (forEach step₁ rest) t₁ (forEach step₂ rest) t₂
        fun _ u₁ _ u₂ => I (rest.reverse ++ done) u₁ u₂ := by
    intro rest
    induction rest with
    | nil =>
      intro done t₁ t₂ _ hI
      exact abreast_pure hI
    | cons a rest ih =>
      intro done t₁ t₂ hrest hI
      rw [forEach, forEach, List.reverse_cons, List.append_assoc]
      refine abreast_bind ((hstep done a (hrest a List.mem_cons_self) t₁ t₂ hI).mono ?_)
      intro _ u₁ _ u₂ hu
      exact ih (a :: done) u₁ u₂ (fun x hx => hrest x (List.mem_cons_of_mem _ hx)) hu
  have hall := hloop as [] s₁ s₂ (fun _ ha => ha) hstart
  rw [List.append_nil] at hall
  exact hall

end Build

end Docset
