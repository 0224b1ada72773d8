/-
  Namespaces with and without a separator in front.

  **The theorem** (`buildSpaces_unrooted`): where all namespaces are written with exactly one separator in
  front, or as nothing, the separators can be left out.  The tree is the same one, with every path but the
  root's short of its first separator: names, depths, parents, children and what is filed stay.

  The two builds take different branches.  The end of a bare path is a NAME, where the rooted path has the
  root as its parent; and a bare parent path is a key as it is written, but is tested for its form with a
  separator in front.  So the runs are not compared.  What is compared is what a finished build looks like,
  and that is a matter of paths alone (`SpacesBuilt.parent_eq_some`, `SpacesBuilt.child_eq_some`):

  1. One step up commutes with leaving the separator out, also where it fails (`Path.parentKey_bare`), and
     names and depths stay.  A map of paths that does this is a RESPELLING (`Path.Respells`).
  2. A respelling takes what is needed for the one input to what is needed for the other
     (`Path.Respells.closure_iff`), and no path clashes there that did not clash before.
  3. So it takes the one tree to the other.
-/
import Docset.Proofs.Name.Bare
import Docset.Proofs.Namespace.Shape

namespace Docset

open Build

/-! ## Leaving out the separator -/

namespace Path

/-- An absolute path is the rooted form of its bare form. -/
theorem Absolute.rooted_bare {path : String} (h : Absolute path) :
    IsBare (bare path) ∧ rooted (bare path) = path := by
  rcases h with rfl | ⟨c, rest, htext, hc⟩
  · exact ⟨Or.inl rfl, rfl⟩
  · have hpath : path = root ++ String.ofList (c :: rest) := by
      rw [← String.toList_inj, toList_root_append, htext, String.toList_ofList]
    have hroot : path ≠ root := by
      rintro rfl
      cases htext
    have hbare : bare path = String.ofList (c :: rest) := by
      rw [bare, if_neg hroot, hpath, unrooted_root_append]
    have hhead : (String.ofList (c :: rest)).toList.head? ≠ some separator := by
      rw [String.toList_ofList, List.head?_cons]
      exact fun heq => hc (Option.some.inj heq)
    have hempty : String.ofList (c :: rest) ≠ "" := by
      intro hnil
      have hlist := congrArg String.toList hnil
      rw [String.toList_ofList] at hlist
      cases hlist
    rw [hbare, rooted_of_head hhead, hpath]
    exact ⟨Or.inr ⟨hempty, hhead⟩, rfl⟩

/-- Absolute paths are told apart by their bare forms. -/
theorem Absolute.bare_inj {p q : String} (hp : Absolute p) (hq : Absolute q) (h : bare p = bare q) :
    p = q := by
  rw [← hp.rooted_bare.2, ← hq.rooted_bare.2, h]

/-- **One step up from the bare form** leads to the bare form of what is above, or fails in the same
    words. -/
theorem Absolute.parentKey_bare {path : String} (h : Absolute path) :
    parentKey (bare path) = (parentKey path).map bare := by
  obtain ⟨hbare, hrooted⟩ := h.rooted_bare
  have hup := parentKey_rooted hbare
  rw [hrooted] at hup
  rw [hup]
  cases habove : parentKey (bare path) with
  | error _ => rfl
  | ok above =>
    show Except.ok above = .ok (bare (rooted above))
    rw [bare_rooted (hbare.above habove)]

/-- The namespace of a text that is empty or absolute, and the namespace of the text without separator. -/
theorem orRoot_unrooted {text : String} (h : text = "" ∨ Absolute text) :
    Absolute (orRoot text) ∧ orRoot (unrooted text) = bare (orRoot text) := by
  rcases h with rfl | habsolute
  · exact ⟨Or.inl rfl, rfl⟩
  · have hempty : text ≠ "" := by
      rintro rfl
      exact absurd habsolute (by decide)
    have htext : orRoot text = text := if_neg hempty
    rw [htext]
    refine ⟨habsolute, ?_⟩
    by_cases hroot : text = root
    · rw [hroot]
      rfl
    · obtain ⟨hbare, -⟩ := habsolute.rooted_bare
      rw [bare, if_neg hroot] at hbare ⊢
      refine if_neg ?_
      rcases hbare with heq | ⟨hne, -⟩
      · rw [heq]
        decide
      · exact hne

/-! ## Respellings -/

/-- A map of paths that keeps what a tree of the needed paths is made of. -/
structure Respells (f : String → String) (needed : String → Prop) : Prop where
  root : f root = root
  inj : ∀ p, needed p → ∀ q, needed q → f p = f q → p = q
  up : ∀ p, needed p → parentKey (f p) = (parentKey p).map f
  name : ∀ p, needed p → (split (f p)).2 = (split p).2
  depth : ∀ p, needed p → depth (f p) = depth p

/-- Leaving the separator out respells absolute paths. -/
theorem respells_bare {needed : String → Prop} (h : ∀ p, needed p → Absolute p) :
    Respells bare needed where
  root := rfl
  inj := fun p hp q hq heq => (h p hp).bare_inj (h q hq) heq
  up := fun p hp => (h p hp).parentKey_bare
  name := by
    intro p hp
    obtain ⟨hbare, hrooted⟩ := (h p hp).rooted_bare
    rw [← name_rooted hbare, hrooted]
  depth := by
    intro p hp
    rw [← depth_rooted (bare p), (h p hp).rooted_bare.2]

namespace Respells

variable {f : String → String} {given given' : String → Prop}

/-- One step up from a respelt path is one step up from the path. -/
theorem up_eq_ok {needed : String → Prop} (h : Respells f needed) {p above : String} (hp : needed p)
    (hup : parentKey (f p) = .ok above) : ∃ q, parentKey p = .ok q ∧ f q = above := by
  rw [h.up p hp] at hup
  cases hq : parentKey p with
  | error _ => rw [hq] at hup; cases hup
  | ok q =>
    rw [hq] at hup
    exact ⟨q, rfl, Except.ok.inj hup⟩

/-- **What is needed for respelt paths** is what was needed, respelt. -/
theorem closure_iff (h : Respells f (Closure given)) (hgiven : ∀ q, given' q ↔ ∃ p, given p ∧ f p = q)
    {q : String} : Closure given' q ↔ ∃ p, Closure given p ∧ f p = q := by
  constructor
  · intro hq
    induction hq with
    | root => exact ⟨Path.root, .root, h.root⟩
    | given hq =>
      obtain ⟨p, hp, hpath⟩ := (hgiven _).1 hq
      exact ⟨p, .given hp, hpath⟩
    | above _ hup ih =>
      obtain ⟨p, hp, rfl⟩ := ih
      obtain ⟨above, habove, hpath⟩ := h.up_eq_ok hp hup
      exact ⟨above, hp.above habove, hpath⟩
  · rintro ⟨p, hp, rfl⟩
    induction hp with
    | root =>
      rw [h.root]
      exact .root
    | given hp => exact .given ((hgiven _).2 ⟨_, hp, rfl⟩)
    | @above p above hp hup ih =>
      refine ih.above ?_
      rw [h.up p hp, hup]
      rfl

/-- Respelt paths clash only if the paths do. -/
theorem clash (h : Respells f (Closure given)) (hgiven : ∀ q, given' q ↔ ∃ p, given p ∧ f p = q)
    (hclash : Clash (Closure given')) : Clash (Closure given) := by
  obtain ⟨p', q', hne, hp', hq', hup_p, hup_q, hname⟩ := hclash
  obtain ⟨p, hp, rfl⟩ := (h.closure_iff hgiven).1 hp'
  obtain ⟨q, hq, rfl⟩ := (h.closure_iff hgiven).1 hq'
  have hroot : ∀ x, Closure given x → parentKey (f x) = .ok Path.root → parentKey x = .ok Path.root := by
    intro x hx hup
    obtain ⟨above, habove, hpath⟩ := h.up_eq_ok hx hup
    rw [habove, h.inj above (hx.above habove) Path.root .root (hpath.trans h.root.symm)]
  rw [h.name p hp, h.name q hq] at hname
  exact ⟨p, q, fun heq => hne (congrArg f heq), hp, hq, hroot p hp hup_p, hroot q hq hup_q, hname⟩

end Respells

end Path

/-! ## Comparing trees of different spelling -/

/-- The nodes stand under a path and under its respelling. -/
def Store.Counterparts (f : String → String) (s₁ : Store) (d₁ : SetId) (s₂ : Store) (d₂ : SetId)
    (n₁ n₂ : NodeId) : Prop :=
  ∃ p, (s₁.index d₁ Tree.spaces.indexName).get? p = some (.node n₁) ∧
    (s₂.index d₂ Tree.spaces.indexName).get? (f p) = some (.node n₂)

/-- Two namespaces have the same name and depth, hold the same elements in the same order, and have
    counterparts as their parents, if any, and as their children under the same keys. -/
structure Store.Matches (f : String → String) (s₁ : Store) (d₁ : SetId) (s₂ : Store) (d₂ : SetId)
    (n₁ n₂ : NodeId) : Prop where
  path : (s₂.node n₂).path = f (s₁.node n₁).path
  name : (s₂.node n₂).name = (s₁.node n₁).name
  depth : (s₂.node n₂).depth = (s₁.node n₁).depth
  parent : Option.Rel (Store.Counterparts f s₁ d₁ s₂ d₂) (s₁.node n₁).parent (s₂.node n₂).parent
  child : ∀ key, Option.Rel (Store.Counterparts f s₁ d₁ s₂ d₂)
    ((s₁.node n₁).children.get? key) ((s₂.node n₂).children.get? key)
  held : ∀ kind ∈ Tree.spaces.kinds, ∃ es,
    (s₁.node n₁).collection kind = .ok es ∧ (s₂.node n₂).collection kind = .ok es

/-- The map of paths takes the one tree of namespaces to the other. -/
structure Store.Isomorphic (f : String → String) (s₁ : Store) (d₁ : SetId) (s₂ : Store) (d₂ : SetId) :
    Prop where
  keys : ∀ q, q ∈ (s₂.index d₂ Tree.spaces.indexName).keys ↔
    ∃ p ∈ (s₁.index d₁ Tree.spaces.indexName).keys, f p = q
  inj : ∀ p ∈ (s₁.index d₁ Tree.spaces.indexName).keys,
    ∀ q ∈ (s₁.index d₁ Tree.spaces.indexName).keys, f p = f q → p = q
  node : ∀ p ∈ (s₁.index d₁ Tree.spaces.indexName).keys, ∃ n₁ n₂,
    (s₁.index d₁ Tree.spaces.indexName).get? p = some (.node n₁) ∧
    (s₂.index d₂ Tree.spaces.indexName).get? (f p) = some (.node n₂) ∧
    Store.Matches f s₁ d₁ s₂ d₂ n₁ n₂

theorem Option.rel_of_forall {α β : Type} {R : α → β → Prop} {a : Option α} {b : Option β}
    (hright : ∀ x, a = some x → ∃ y, b = some y ∧ R x y)
    (hleft : ∀ y, b = some y → ∃ x, a = some x) : Option.Rel R a b := by
  cases a with
  | none =>
    cases b with
    | none => exact .none
    | some y =>
      obtain ⟨x, hx⟩ := hleft y rfl
      cases hx
  | some x =>
    obtain ⟨y, rfl, hxy⟩ := hright x rfl
    exact .some hxy

/-! ## Finished trees -/

namespace SpacesBuilt

variable {s t : Store} {d : SetId} {n : NodeId}

/-- The parent of a namespace is what stands under the path above. -/
theorem parent_eq_some (h : SpacesBuilt d s t) (hn : n ∈ t.madeSince s.nodes.size) {m : NodeId} :
    (t.node n).parent = some m ↔ ∃ q, Path.parentKey (t.node n).path = .ok q ∧
      (t.index d Tree.spaces.indexName).get? q = some (.node m) := by
  constructor
  · intro hm
    obtain ⟨hmade, hup⟩ := h.forest.above n hn m hm
    exact ⟨_, hup, h.forest.registry.get?_path hmade⟩
  · rintro ⟨q, hup, hget⟩
    obtain ⟨m', hmade, hm', rfl⟩ := h.forest.parent_of_settled hn (h.settled n hn) hup
    rw [h.forest.registry.get?_path hmade] at hget
    cases hget
    exact hm'

/-- The children of a namespace are what stands under the paths that go up to it, by last names. -/
theorem child_eq_some (h : SpacesBuilt d s t) (hclash : ¬ Path.Clash (Path.Closure (s.DeclaresSpace d)))
    (hn : n ∈ t.madeSince s.nodes.size) {key : String} {c : NodeId} :
    (t.node n).children.get? key = some c ↔ ∃ q, Path.parentKey q = .ok (t.node n).path ∧
      (Path.split q).2 = key ∧ (t.index d Tree.spaces.indexName).get? q = some (.node c) := by
  constructor
  · intro hc
    obtain ⟨hmade, hparent, rfl⟩ := h.forest.below n hn key c hc
    exact ⟨_, (h.forest.above c hmade n hparent).2, (h.forest.formed c hmade).name_eq.symm,
      h.forest.registry.get?_path hmade⟩
  · rintro ⟨q, hup, rfl, hget⟩
    obtain ⟨c', hmade, rfl, heq⟩ := h.forest.registry.of_get? hget
    cases heq
    obtain ⟨m, hm, hparent, hpath⟩ := h.forest.parent_of_settled hmade (h.settled c hmade) hup
    have hkept := h.kept_iff.2 hclash c hmade m hparent
    rw [(h.forest.formed c hmade).name_eq, h.forest.registry.eq_of_path hm hn hpath] at hkept
    exact hkept

end SpacesBuilt

section Respelling

variable {f : String → String} {s₁ t₁ s₂ t₂ : Store} {d₁ d₂ : SetId} {n₁ n₂ : NodeId}

/-- Everything that is registered is needed. -/
theorem SpacesBuilt.needed_of_get? (h₁ : SpacesBuilt d₁ s₁ t₁) {p : String} {entry : Entry}
    (hget : (t₁.index d₁ Tree.spaces.indexName).get? p = some entry) :
    Path.Closure (s₁.DeclaresSpace d₁) p := h₁.mem_keys.1 (Ledger.mem_keys_iff.2 ⟨_, hget⟩)

/-- Every needed path is registered, with the namespace of that path. -/
theorem SpacesBuilt.exists_get? (h₁ : SpacesBuilt d₁ s₁ t₁) {p : String}
    (hp : Path.Closure (s₁.DeclaresSpace d₁) p) : ∃ n ∈ t₁.madeSince s₁.nodes.size,
      (t₁.node n).path = p ∧ (t₁.index d₁ Tree.spaces.indexName).get? p = some (.node n) := by
  obtain ⟨n, hn, rfl⟩ := h₁.forest.registry.mem_keys.1 (h₁.mem_keys.2 hp)
  exact ⟨n, hn, rfl, h₁.forest.registry.get?_path hn⟩

section Counterparts

variable (h₁ : SpacesBuilt d₁ s₁ t₁) (h₂ : SpacesBuilt d₂ s₂ t₂)
  (hf : Path.Respells f (Path.Closure (s₁.DeclaresSpace d₁)))
  (hneeded : ∀ q, Path.Closure (s₂.DeclaresSpace d₂) q ↔
    ∃ p, Path.Closure (s₁.DeclaresSpace d₁) p ∧ f p = q)

include h₁ h₂ hf hneeded

/-- The parents of a namespace and of that of the respelt path are counterparts, if there are any. -/
theorem SpacesBuilt.counterparts_parent (hn₁ : n₁ ∈ t₁.madeSince s₁.nodes.size)
    (hn₂ : n₂ ∈ t₂.madeSince s₂.nodes.size) (hpath : (t₂.node n₂).path = f (t₁.node n₁).path) :
    Option.Rel (Store.Counterparts f t₁ d₁ t₂ d₂) (t₁.node n₁).parent (t₂.node n₂).parent := by
  have hp := h₁.needed_of_get? (h₁.forest.registry.get?_path hn₁)
  refine Option.rel_of_forall (fun m₁ hm₁ => ?_) fun m₂ hm₂ => ?_
  · obtain ⟨q, hup, hget⟩ := (h₁.parent_eq_some hn₁).1 hm₁
    obtain ⟨m₂, -, -, hget'⟩ := h₂.exists_get? ((hneeded (f q)).2 ⟨q, hp.above hup, rfl⟩)
    refine ⟨m₂, (h₂.parent_eq_some hn₂).2 ⟨f q, ?_, hget'⟩, q, hget, hget'⟩
    rw [hpath, hf.up _ hp, hup]
    rfl
  · obtain ⟨q', hup', -⟩ := (h₂.parent_eq_some hn₂).1 hm₂
    rw [hpath] at hup'
    obtain ⟨q, hup, -⟩ := hf.up_eq_ok hp hup'
    obtain ⟨m₁, -, -, hget⟩ := h₁.exists_get? (hp.above hup)
    exact ⟨m₁, (h₁.parent_eq_some hn₁).2 ⟨q, hup, hget⟩⟩

/-- Their children under a key are counterparts, if there are any. -/
theorem SpacesBuilt.counterparts_child (hclash₁ : ¬ Path.Clash (Path.Closure (s₁.DeclaresSpace d₁)))
    (hclash₂ : ¬ Path.Clash (Path.Closure (s₂.DeclaresSpace d₂)))
    (hn₁ : n₁ ∈ t₁.madeSince s₁.nodes.size) (hn₂ : n₂ ∈ t₂.madeSince s₂.nodes.size)
    (hpath : (t₂.node n₂).path = f (t₁.node n₁).path) (key : String) :
    Option.Rel (Store.Counterparts f t₁ d₁ t₂ d₂) ((t₁.node n₁).children.get? key)
      ((t₂.node n₂).children.get? key) := by
  have hp := h₁.needed_of_get? (h₁.forest.registry.get?_path hn₁)
  refine Option.rel_of_forall (fun c₁ hc₁ => ?_) fun c₂ hc₂ => ?_
  · obtain ⟨q, hup, hname, hget⟩ := (h₁.child_eq_some hclash₁ hn₁).1 hc₁
    have hq := h₁.needed_of_get? hget
    obtain ⟨c₂, -, -, hget'⟩ := h₂.exists_get? ((hneeded (f q)).2 ⟨q, hq, rfl⟩)
    refine ⟨c₂, (h₂.child_eq_some hclash₂ hn₂).2 ⟨f q, ?_, ?_, hget'⟩, q, hget, hget'⟩
    · rw [hpath, hf.up q hq, hup]
      rfl
    · rw [hf.name q hq, hname]
  · obtain ⟨q', hup', hname', hget'⟩ := (h₂.child_eq_some hclash₂ hn₂).1 hc₂
    obtain ⟨q, hq, rfl⟩ := (hneeded q').1 (h₂.needed_of_get? hget')
    obtain ⟨above, hup, habove⟩ := hf.up_eq_ok hq hup'
    obtain ⟨c₁, -, -, hget⟩ := h₁.exists_get? hq
    refine ⟨c₁, (h₁.child_eq_some hclash₁ hn₁).2 ⟨q, ?_, ?_, hget⟩⟩
    · rw [hup, hf.inj above (hq.above hup) _ hp (habove.trans hpath)]
    · rw [← hf.name q hq, hname']

end Counterparts

/-- **Finished trees of respelt paths are isomorphic**, if the same elements are filed. -/
theorem SpacesBuilt.isomorphic (h₁ : SpacesBuilt d₁ s₁ t₁) (h₂ : SpacesBuilt d₂ s₂ t₂)
    (hf : Path.Respells f (Path.Closure (s₁.DeclaresSpace d₁)))
    (hdeclares : ∀ q, s₂.DeclaresSpace d₂ q ↔ ∃ p, s₁.DeclaresSpace d₁ p ∧ f p = q)
    (hclash : ¬ Path.Clash (Path.Closure (s₁.DeclaresSpace d₁)))
    (hheld : ∀ n₁ ∈ t₁.madeSince s₁.nodes.size, ∀ n₂ ∈ t₂.madeSince s₂.nodes.size,
      (t₂.node n₂).path = f (t₁.node n₁).path → ∀ kind ∈ Tree.spaces.kinds, ∃ es,
        (t₁.node n₁).collection kind = .ok es ∧ (t₂.node n₂).collection kind = .ok es) :
    Store.Isomorphic f t₁ d₁ t₂ d₂ := by
  have hneeded : ∀ q, Path.Closure (s₂.DeclaresSpace d₂) q ↔
      ∃ p, Path.Closure (s₁.DeclaresSpace d₁) p ∧ f p = q := fun q => hf.closure_iff hdeclares
  have hclash₂ : ¬ Path.Clash (Path.Closure (s₂.DeclaresSpace d₂)) :=
    fun hclash₂ => hclash (hf.clash hdeclares hclash₂)
  refine ⟨fun q => ?_, fun p hp q hq => ?_, fun p hp => ?_⟩
  · rw [h₂.mem_keys, hneeded]
    simp only [h₁.mem_keys]
  · exact hf.inj p (h₁.mem_keys.1 hp) q (h₁.mem_keys.1 hq)
  · have hp := h₁.mem_keys.1 hp
    obtain ⟨n₁, hn₁, rfl, hget₁⟩ := h₁.exists_get? hp
    obtain ⟨n₂, hn₂, hpath, hget₂⟩ := h₂.exists_get? ((hneeded (f _)).2 ⟨_, hp, rfl⟩)
    refine ⟨n₁, n₂, hget₁, hget₂, hpath, ?_, ?_,
      h₁.counterparts_parent h₂ hf hneeded hn₁ hn₂ hpath,
      h₁.counterparts_child h₂ hf hneeded hclash hclash₂ hn₁ hn₂ hpath,
      hheld n₁ hn₁ n₂ hn₂ hpath⟩
    · rw [(h₁.forest.formed n₁ hn₁).name_eq, (h₂.forest.formed n₂ hn₂).name_eq, hpath]
      exact hf.name _ hp
    · rw [Node.depth, Node.depth, hpath]
      exact hf.depth _ hp

end Respelling

/-! ## The theorem -/

/-- The second set has the same files, which declare the same elements, but no namespace is written with
    a separator in front. -/
structure Store.Unrooted (s₁ : Store) (d₁ : SetId) (s₂ : Store) (d₂ : SetId) : Prop where
  files : (s₂.files d₂).values = (s₁.files d₁).values
  members : ∀ file ∈ (s₁.files d₁).values, ∀ kind ∈ Tree.spaces.kinds,
    s₂.membersOf file kind = s₁.membersOf file kind
  space : ∀ e ∈ s₁.declared d₁ Tree.spaces.kinds, s₂.spacePath e = Path.unrooted (s₁.spacePath e)

/-- Every namespace that the set names is written as nothing or with exactly one separator in front. -/
def Store.NamesAbsolute (s : Store) (d : SetId) : Prop :=
  ∀ e ∈ s.declared d Tree.spaces.kinds, s.spacePath e = "" ∨ Path.Absolute (s.spacePath e)

instance (s : Store) (d : SetId) : Decidable (s.NamesAbsolute d) :=
  inferInstanceAs (Decidable (∀ e ∈ s.declared d Tree.spaces.kinds, _))

section Unrooting

variable {s₁ s₂ : Store} {d₁ d₂ : SetId}

namespace Store.Unrooted

theorem declared (h : s₁.Unrooted d₁ s₂ d₂) :
    s₂.declared d₂ Tree.spaces.kinds = s₁.declared d₁ Tree.spaces.kinds := by
  rw [Store.declared, Store.declared, h.files]
  refine List.flatMap_congr fun file hfile => ?_
  exact List.flatMap_congr fun kind hkind => h.members file hfile kind hkind

/-- The namespace that an element names is the bare form of the one that it named. -/
theorem namedSpace (h : s₁.Unrooted d₁ s₂ d₂) (habsolute : s₁.NamesAbsolute d₁) {e : ElementId}
    (he : e ∈ s₁.declared d₁ Tree.spaces.kinds) : s₂.namedSpace e = Path.bare (s₁.namedSpace e) := by
  rw [Store.namedSpace, Store.namedSpace, h.space e he]
  exact (Path.orRoot_unrooted (habsolute e he)).2

theorem declaresSpace (h : s₁.Unrooted d₁ s₂ d₂) (habsolute : s₁.NamesAbsolute d₁) (q : String) :
    s₂.DeclaresSpace d₂ q ↔ ∃ p, s₁.DeclaresSpace d₁ p ∧ Path.bare p = q := by
  constructor
  · rintro ⟨e, he, rfl⟩
    rw [h.declared] at he
    exact ⟨_, ⟨e, he, rfl⟩, (h.namedSpace habsolute he).symm⟩
  · rintro ⟨_, ⟨e, he, rfl⟩, rfl⟩
    refine ⟨e, ?_, h.namedSpace habsolute he⟩
    rw [h.declared]
    exact he

end Store.Unrooted

/-- What absolute names need is absolute. -/
theorem Store.NamesAbsolute.of_closure (h : s₁.NamesAbsolute d₁) {p : String}
    (hp : Path.Closure (s₁.DeclaresSpace d₁) p) : Path.Absolute p := by
  refine Path.Absolute.of_closure ?_ hp
  rintro _ ⟨e, he, rfl⟩
  exact (Path.orRoot_unrooted (h e he)).1

/-- The elements of one kind that name a namespace are those that named it with the separator. -/
theorem Store.Unrooted.named (h : s₁.Unrooted d₁ s₂ d₂) (habsolute : s₁.NamesAbsolute d₁)
    (hkinds₁ : s₁.FiledByKind d₁) (hkinds₂ : s₂.FiledByKind d₂) {p : String} (hp : Path.Absolute p)
    {kind : Kind} (hkind : kind ∈ Tree.spaces.kinds) :
    (((s₂.declared d₂ Tree.spaces.kinds).filter fun e => (s₂.element e).kind = kind).filter
        fun e => s₂.namedSpace e = Path.bare p) =
      ((s₁.declared d₁ Tree.spaces.kinds).filter fun e => (s₁.element e).kind = kind).filter
        fun e => s₁.namedSpace e = p := by
  rw [Store.filter_declared hkinds₂ hkind, Store.filter_declared hkinds₁ hkind, h.files,
    List.flatMap_congr fun file hfile => h.members file hfile kind hkind]
  refine List.filter_congr fun e he => ?_
  obtain ⟨file, hfile, he⟩ := List.mem_flatMap.1 he
  have hdeclared : e ∈ s₁.declared d₁ Tree.spaces.kinds :=
    List.mem_flatMap.2 ⟨file, hfile, List.mem_flatMap.2 ⟨kind, hkind, he⟩⟩
  rw [h.namedSpace habsolute hdeclared, decide_eq_decide]
  constructor
  · exact (Path.orRoot_unrooted (habsolute e hdeclared)).1.bare_inj hp
  · exact congrArg Path.bare

/-- **The separator in front can be left out.**  Where a set writes its namespaces with exactly one
    separator in front, or as nothing, and another set writes them without, the two come to one tree, but
    for the first separator of every path that is not the root's.  No path has to be a qualified name. -/
theorem buildSpaces_unrooted (h : s₁.Unrooted d₁ s₂ d₂) (habsolute : s₁.NamesAbsolute d₁)
    (hcode₁ : s₁.DescribesCode d₁) (hkinds₁ : s₁.FiledByKind d₁) (hresolved₁ : s₁.Resolved d₁)
    (hcode₂ : s₂.DescribesCode d₂) (hkinds₂ : s₂.FiledByKind d₂) (hresolved₂ : s₂.Resolved d₂) :
    Ensures (buildSpaces d₁) s₁ fun _ t₁ => Ensures (buildSpaces d₂) s₂ fun _ t₂ =>
      Store.Isomorphic Path.bare t₁ d₁ t₂ d₂ := by
  have hneeded : ∀ p, Path.Closure (s₁.DeclaresSpace d₁) p → Path.Absolute p :=
    fun p hp => habsolute.of_closure hp
  refine ((buildSpaces_ensures hcode₁ hkinds₁).and (buildSpaces_filed hcode₁ hkinds₁ hresolved₁)).mono ?_
  rintro _ t₁ ⟨ht₁, hfiled₁⟩
  refine ((buildSpaces_ensures hcode₂ hkinds₂).and (buildSpaces_filed hcode₂ hkinds₂ hresolved₂)).mono ?_
  rintro _ t₂ ⟨ht₂, hfiled₂⟩
  refine ht₁.isomorphic ht₂ (Path.respells_bare hneeded) (h.declaresSpace habsolute)
    (Path.not_clash_of_absolute hneeded) fun n₁ hn₁ n₂ hn₂ hpath kind hkind => ?_
  have hpath₁ : Path.Absolute (t₁.node n₁).path :=
    hneeded _ (ht₁.mem_keys.1 (ht₁.forest.registry.mem_keys.2 ⟨n₁, hn₁, rfl⟩))
  refine ⟨_, hfiled₁.collection hn₁ (ht₁.forest.registry.tree_eq n₁ hn₁) hkind, ?_⟩
  rw [hfiled₂.collection hn₂ (ht₂.forest.registry.tree_eq n₂ hn₂) hkind, hpath]
  exact congrArg Except.ok (h.named habsolute hkinds₁ hkinds₂ hpath₁ hkind)

/-- A class in the root, which is written as nothing, and classes in two namespaces that are no qualified
    names. -/
theorem buildSpaces_unrooted_malformed :
    let classIn := fun text => Element.declare .classType "\\X" "" (.path text) .unset
    let texts := ["", "\\A\\\\C", "\\1\\D\\"]
    let s₁ := Store.ofDeclared (texts.map classIn)
    let s₂ := Store.ofDeclared ((texts.map Path.unrooted).map classIn)
    s₁.Unrooted ⟨0⟩ s₂ ⟨0⟩ ∧ s₁.NamesAbsolute ⟨0⟩ ∧ s₁.DescribesCode ⟨0⟩ ∧ s₁.FiledByKind ⟨0⟩ ∧
      s₁.Resolved ⟨0⟩ ∧ s₂.DescribesCode ⟨0⟩ ∧ s₂.FiledByKind ⟨0⟩ ∧ s₂.Resolved ⟨0⟩ ∧
      Ensures (buildSpaces ⟨0⟩) s₁ fun _ t₁ => Ensures (buildSpaces ⟨0⟩) s₂ fun _ t₂ =>
        Store.Isomorphic Path.bare t₁ ⟨0⟩ t₂ ⟨0⟩ := by
  intro classIn texts s₁ s₂
  have hunrooted : s₁.Unrooted ⟨0⟩ s₂ ⟨0⟩ :=
    ⟨by decide, by decide +kernel, by decide +kernel⟩
  have habsolute : s₁.NamesAbsolute ⟨0⟩ := by decide +kernel
  have hcode₁ : s₁.DescribesCode ⟨0⟩ := by decide
  have hkinds₁ : s₁.FiledByKind ⟨0⟩ := by decide
  have hresolved₁ : s₁.Resolved ⟨0⟩ := by decide
  have hcode₂ : s₂.DescribesCode ⟨0⟩ := by decide
  have hkinds₂ : s₂.FiledByKind ⟨0⟩ := by decide
  have hresolved₂ : s₂.Resolved ⟨0⟩ := by decide
  exact ⟨hunrooted, habsolute, hcode₁, hkinds₁, hresolved₁, hcode₂, hkinds₂, hresolved₂,
    buildSpaces_unrooted hunrooted habsolute hcode₁ hkinds₁ hresolved₁ hcode₂ hkinds₂ hresolved₂⟩

end Unrooting

end Docset
