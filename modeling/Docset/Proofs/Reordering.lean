/-
  The order of the input does not matter for the trees.

  **The theorem** (`runPasses_reordered`): two sets with the same files and the same elements, but with
  files and elements listed in any order, come to the same trees, whichever tree is built first.  Two
  things would tell orders apart, and both are excluded: paths of namespaces with no or several separators
  in front, where two namespaces compete for one name, and packages called by the word for no name, where
  two paths compete for one place.

  1. A finished tree follows a plan that is read off the input (`SpacesBuilt.follows`,
     `PackagesBuilt.follows`), and it keeps to it while the other tree is built, for that writes other
     indexes and touches no node that was there (`Store.Retains`).
  2. The other tree is built from the same reading (`Store.SameReading`), so it does not matter which of the
     two comes first (`runPasses_follows`).
  3. The plans of reordered inputs agree: what is needed is a SET of paths, and what is filed at a path is
     a choice from a list, of which a reordering is a permutation (`Store.Reordered.agrees`).
-/
import Mathlib.Data.List.Perm.Basic
import Docset.Proofs.Footprint
import Docset.Proofs.Namespace.Shape
import Docset.Proofs.Package.Shape
import Docset.Proofs.Reading

namespace Docset

open Build

/-! ## Plans of an input -/

/-- What the trees of a set are to look like. -/
def Store.plan (s : Store) (d : SetId) : Tree → Plan
  | .spaces => s.spacePlan d
  | .packages => s.packagePlan d

/-- What keeps the order of the input from showing: the promises, namespaces with exactly one separator
    in front, and no package called by the word for no name. -/
structure Store.Orderly (s : Store) (d : SetId) : Prop where
  promised : s.Promised d
  resolved : s.Resolved d
  absolute : ∀ e ∈ s.declared d Tree.spaces.kinds, Path.Absolute (s.namedSpace e)
  named : ∀ p ∈ s.packagePaths d, namelessKey ∉ Path.parts p

namespace Store.SameReading

variable {d : SetId} {s t : Store}

theorem packagePaths (h : SameReading d s t) : t.packagePaths d = s.packagePaths d := by
  rw [Store.packagePaths, Store.packagePaths, h.input.packaged]
  exact List.map_congr_left fun e _ => h.input.packagePath e

theorem orderly (h : SameReading d s t) (hs : s.Orderly d) : t.Orderly d where
  promised := h.promised hs.promised
  resolved := h.resolved
  absolute := by
    intro e he
    rw [h.input.declared] at he
    rw [h.space e he]
    exact hs.absolute e he
  named := by
    rw [h.packagePaths]
    exact hs.named

theorem declaresSpace (h : SameReading d s t) : t.DeclaresSpace d = s.DeclaresSpace d := by
  funext p
  refine propext ?_
  rw [Store.DeclaresSpace, Store.DeclaresSpace, h.input.declared]
  constructor
  · rintro ⟨e, he, hpath⟩
    exact ⟨e, he, (h.space e he).symm.trans hpath⟩
  · rintro ⟨e, he, hpath⟩
    exact ⟨e, he, (h.space e he).trans hpath⟩

/-- One reading makes one plan. -/
theorem plan (h : SameReading d s t) : t.plan d = s.plan d := by
  have hkind : ∀ e, (t.element e).kind = (s.element e).kind := h.input.kind
  funext tree
  cases tree with
  | spaces =>
    have hheld : (t.spacePlan d).held = (s.spacePlan d).held := by
      funext p kind
      show ((t.declared d _).filter _).filter _ = ((s.declared d _).filter _).filter _
      simp only [h.input.declared, hkind]
      refine List.filter_congr fun e he => ?_
      rw [h.space e (List.mem_filter.1 he).1]
    show t.spacePlan d = s.spacePlan d
    rw [Store.spacePlan, Store.spacePlan, h.declaresSpace]
    exact congrArg (Plan.mk _ _ _) hheld
  | packages =>
    have hheld : (t.packagePlan d).held = (s.packagePlan d).held := by
      funext p kind
      show ((t.packaged d).filter _).filter _ = ((s.packaged d).filter _).filter _
      have hplace : t.namedPlace = s.namedPlace := funext fun e => congrArg Path.place (h.input.packagePath e)
      simp only [h.input.packaged, hkind, hplace]
    show t.packagePlan d = s.packagePlan d
    rw [Store.packagePlan, Store.packagePlan, h.packagePaths]
    exact congrArg (Plan.mk _ _ _) hheld

end Store.SameReading

/-! ## The passes of the two trees -/

/-- The other tree. -/
def Tree.other : Tree → Tree
  | .spaces => .packages
  | .packages => .spaces

/-- The pass that builds a tree. -/
def Pass.ofTree : Tree → Pass
  | .spaces => namespaceTree
  | .packages => packageTree

/-- The passes of the two trees, beginning with one of them. -/
def Pass.trees (first : Tree) : List Pass := [ofTree first, ofTree first.other]

section Passes

variable {d : SetId} {s : Store}

/-- What the pass of a tree comes to: the tree follows the plan for as long as it is let alone, the other
    tree is as it was, and so is what builds read. -/
structure Store.TreeMade (tree : Tree) (d : SetId) (s t : Store) : Prop where
  follows : ∀ u, Store.Retains d tree t u → u.Follows d tree (s.plan d tree)
  other : Store.Retains d tree.other s t
  reading : Store.SameReading d s t

theorem buildSpaces_made (hs : s.Orderly d) :
    Ensures (buildSpaces d) s fun _ t => Store.TreeMade .spaces d s t := by
  have hclash : ¬ Path.Clash (Path.Closure (s.DeclaresSpace d)) := by
    refine Path.not_clash_closure ?_
    rintro p ⟨e, he, rfl⟩
    exact hs.absolute e he
  obtain ⟨a, t, hrun, hbuilt, hfiled⟩ := (buildSpaces_ensures hs.promised.code hs.promised.kinds).and
    (buildSpaces_filed hs.promised.code hs.promised.kinds hs.resolved)
  refine ⟨a, t, hrun, fun u hu => hbuilt.follows hfiled hclash hu, ⟨?_, hfiled.old⟩, ?_⟩
  · exact (buildSpaces_writes d).index_eq (by decide) hrun
  · exact .of_spaces hbuilt hs.resolved hfiled

theorem buildPackages_made (hs : s.Orderly d) :
    Ensures (buildPackages d) s fun _ t => Store.TreeMade .packages d s t := by
  have hpromised := hs.promised
  obtain ⟨a, t, hrun, hbuilt, hfiled⟩ :=
    (buildPackages_ensures hpromised.code hpromised.kinds hpromised.files).and
      (buildPackages_filed hpromised.code hpromised.kinds hpromised.files)
  refine ⟨a, t, hrun, fun u hu => hbuilt.follows hfiled hs.named hu, ⟨?_, hfiled.old⟩, ?_⟩
  · exact (buildPackages_writes d).index_eq (by decide) hrun
  · exact .of_packages hbuilt hs.resolved hfiled

/-- The pass of a tree makes the tree, and goes on with the set. -/
theorem runPass_made (hs : s.Orderly d) (tree : Tree) :
    Ensures (runPass (Pass.ofTree tree) d) s fun next t =>
      next = some d ∧ Store.TreeMade tree d s t := by
  have hannounced : Store.SameReading d s (s.record compileLogger Level.info (Pass.ofTree tree).title) :=
    .of_inert (.record s d _ _ _) hs.resolved
  rw [ensures_runPass]
  -- The announcement is in the journal alone.
  have hmade : ∀ t, Store.TreeMade tree d (s.record compileLogger Level.info
      (Pass.ofTree tree).title) t → Store.TreeMade tree d s t := by
    rintro t ⟨hfollows, hother, hreading⟩
    refine ⟨?_, ⟨hother.index, hother.node⟩, hannounced.trans hreading⟩
    rw [hannounced.plan] at hfollows
    exact hfollows
  cases tree with
  | spaces =>
    refine ensures_bind.2 (ensures_mapError.2 ?_)
    refine (buildSpaces_made (hannounced.orderly hs)).mono fun _ t ht => ?_
    exact ensures_pure.2 ⟨rfl, hmade t ht⟩
  | packages =>
    refine ensures_bind.2 (ensures_mapError.2 ?_)
    refine (buildPackages_made (hannounced.orderly hs)).mono fun _ t ht => ?_
    exact ensures_pure.2 ⟨rfl, hmade t ht⟩

/-- **Both trees follow their plans**, whichever is built first. -/
theorem runPasses_follows (hs : s.Orderly d) (first : Tree) :
    Ensures (runPasses d (Pass.trees first)) s fun result t =>
      result = d ∧ ∀ tree, t.Follows d tree (s.plan d tree) := by
  rw [Pass.trees, runPasses, ensures_bind]
  refine (runPass_made hs first).mono fun next t ht => ?_
  obtain ⟨rfl, ht⟩ := ht
  rw [Option.getD_some, runPasses, ensures_bind]
  refine (runPass_made (ht.reading.orderly hs) first.other).mono fun next u hu => ?_
  obtain ⟨rfl, hu⟩ := hu
  rw [Option.getD_some, runPasses, ensures_pure]
  refine ⟨rfl, fun tree => ?_⟩
  have hback : first.other.other = first := by
    cases first with
    | spaces => rfl
    | packages => rfl
  have hfirst : u.Follows d first (s.plan d first) := ht.follows u (hback ▸ hu.other)
  have hlast : u.Follows d first.other (s.plan d first.other) := by
    rw [← ht.reading.plan]
    exact hu.follows u (.refl d _ u)
  cases first with
  | spaces =>
    cases tree with
    | spaces => exact hfirst
    | packages => exact hlast
  | packages =>
    cases tree with
    | spaces => exact hlast
    | packages => exact hfirst

end Passes

/-! ## Reordering -/

/-- Two sets have the same files and elements, but may list them in another order: the files, and the
    elements that a file declares of one kind. -/
structure Store.Reordered (s₁ : Store) (d₁ : SetId) (s₂ : Store) (d₂ : SetId) : Prop where
  files : (s₁.files d₁).values.Perm (s₂.files d₂).values
  members : ∀ file ∈ (s₁.files d₁).values, ∀ kind ∈ Tree.spaces.kinds,
    (s₁.membersOf file kind).Perm (s₂.membersOf file kind)
  kind : ∀ e, s₁.Lists d₁ e → (s₁.element e).kind = (s₂.element e).kind
  tags : ∀ e, s₁.Lists d₁ e → (s₁.element e).tags = (s₂.element e).tags
  space : ∀ e ∈ s₁.declared d₁ Tree.spaces.kinds, s₁.namedSpace e = s₂.namedSpace e

namespace Store.Reordered

variable {s₁ s₂ : Store} {d₁ d₂ : SetId}

theorem declaredIn (h : s₁.Reordered d₁ s₂ d₂) {file : ElementId}
    (hfile : file ∈ (s₁.files d₁).values) {kinds : List Kind}
    (hkinds : ∀ kind ∈ kinds, kind ∈ Tree.spaces.kinds) :
    (s₁.declaredIn kinds file).Perm (s₂.declaredIn kinds file) :=
  .flatMap (.refl kinds) fun kind hkind => h.members file hfile kind (hkinds kind hkind)

theorem declared (h : s₁.Reordered d₁ s₂ d₂) :
    (s₁.declared d₁ Tree.spaces.kinds).Perm (s₂.declared d₂ Tree.spaces.kinds) :=
  .flatMap h.files fun _ hfile => h.declaredIn hfile fun _ hkind => hkind

theorem packaged (h : s₁.Reordered d₁ s₂ d₂) : (s₁.packaged d₁).Perm (s₂.packaged d₂) := by
  have hspaces : ∀ kind ∈ packagedKinds, kind ∈ Tree.spaces.kinds := by decide
  exact .flatMap h.files fun file hfile => (h.declaredIn hfile hspaces).cons file

theorem packagePath (h : s₁.Reordered d₁ s₂ d₂) {e : ElementId} (he : e ∈ s₁.packaged d₁) :
    (s₁.element e).packagePath = (s₂.element e).packagePath := by
  have htags := h.tags e (Store.lists_of_packaged he)
  rw [Element.packagePath, Element.packagePath, Element.packageName, Element.packageName,
    Element.packageText, Element.packageText]
  rw [Element.firstTag, Element.firstTag, Element.firstTag, Element.firstTag, htags]

theorem packagePaths (h : s₁.Reordered d₁ s₂ d₂) : (s₁.packagePaths d₁).Perm (s₂.packagePaths d₂) := by
  rw [Store.packagePaths, Store.packagePaths, List.map_congr_left fun e he => h.packagePath he]
  exact h.packaged.map _

theorem declaresSpace (h : s₁.Reordered d₁ s₂ d₂) (p : String) :
    s₁.DeclaresSpace d₁ p ↔ s₂.DeclaresSpace d₂ p := by
  constructor
  · rintro ⟨e, he, hpath⟩
    exact ⟨e, h.declared.mem_iff.1 he, (h.space e he).symm.trans hpath⟩
  · rintro ⟨e, he, hpath⟩
    have he := h.declared.mem_iff.2 he
    exact ⟨e, he, (h.space e he).trans hpath⟩

/-- What is chosen from the elements of one kind is the same, as often. -/
theorem choose (h : s₁.Reordered d₁ s₂ d₂) {es₁ es₂ : List ElementId} (hes : es₁.Perm es₂)
    (hlists : ∀ e ∈ es₁, s₁.Lists d₁ e) (kind : Kind) {p₁ p₂ : ElementId → Bool}
    (hp : ∀ e ∈ es₁, p₁ e = p₂ e) :
    ((es₁.filter fun e => (s₁.element e).kind = kind).filter p₁).Perm
      ((es₂.filter fun e => (s₂.element e).kind = kind).filter p₂) := by
  have hkind : (es₁.filter fun e => (s₁.element e).kind = kind) =
      es₁.filter fun e => (s₂.element e).kind = kind := by
    refine List.filter_congr fun e he => ?_
    rw [h.kind e (hlists e he)]
  have hsame : (es₁.filter fun e => (s₂.element e).kind = kind).filter p₁ =
      (es₁.filter fun e => (s₂.element e).kind = kind).filter p₂ :=
    List.filter_congr fun e he => hp e (List.mem_filter.1 he).1
  rw [hkind, hsame]
  exact (hes.filter _).filter _

/-- **The plans of reordered inputs agree.** -/
theorem agrees (h : s₁.Reordered d₁ s₂ d₂) (tree : Tree) :
    (s₁.plan d₁ tree).Agrees (s₂.plan d₂ tree) := by
  cases tree with
  | spaces =>
    refine ⟨fun p => ⟨fun hp => ?_, fun hp => ?_⟩, rfl, rfl, fun p kind => ?_⟩
    · exact hp.of_given fun q hq => .given ((h.declaresSpace q).1 hq)
    · exact hp.of_given fun q hq => .given ((h.declaresSpace q).2 hq)
    · refine h.choose h.declared (fun _ he => Or.inr he) kind fun e he => ?_
      rw [h.space e he]
  | packages =>
    refine ⟨fun p => ?_, rfl, rfl, fun p kind => ?_⟩
    · show Path.OnWay (s₁.packagePaths d₁) p ↔ Path.OnWay (s₂.packagePaths d₂) p
      simp only [Path.OnWay, h.packagePaths.mem_iff]
    · refine h.choose h.packaged (fun _ he => Store.lists_of_packaged he) kind fun e he => ?_
      rw [Store.namedPlace, Store.namedPlace, h.packagePath he]

end Store.Reordered

/-- **The order of the input does not matter**: two sets with the same files and elements, listed in any
    order, come to the same trees, whichever of the two is built first in either.  Paths, parents and
    children are the same, and at every path the same elements of every kind are filed, as often. -/
theorem runPasses_reordered {s₁ s₂ : Store} {d₁ d₂ : SetId} (hreordered : s₁.Reordered d₁ s₂ d₂)
    (h₁ : s₁.Orderly d₁) (h₂ : s₂.Orderly d₂) (first₁ first₂ : Tree) :
    Ensures (runPasses d₁ (Pass.trees first₁)) s₁ fun _ t₁ =>
      Ensures (runPasses d₂ (Pass.trees first₂)) s₂ fun _ t₂ =>
        ∀ tree, Store.SameTree tree t₁ d₁ t₂ d₂ := by
  refine (runPasses_follows h₁ first₁).mono fun _ t₁ ht₁ => ?_
  refine (runPasses_follows h₂ first₂).mono fun _ t₂ ht₂ tree => ?_
  exact (hreordered.agrees tree).sameTree (ht₁.2 tree) (ht₂.2 tree)

/-- A class in `\A\B` and one in `\A`, both in packages, listed in either order, where one time the
    namespaces are built first and the other time the packages. -/
theorem runPasses_reordered_pair :
    let s₁ := Store.ofDeclared [
      (Element.declare .classType "\\A\\B\\X" "" (.path "\\A\\B") .unset).addTag ⟨"package", "P\\Q"⟩,
      (Element.declare .classType "\\A\\Y" "" (.path "\\A") .unset).addTag ⟨"package", "P"⟩]
    let s₂ := s₁.updateElement ⟨0⟩ fun file => { file with members := ⟨file.members.filed.reverse⟩ }
    s₁.Reordered ⟨0⟩ s₂ ⟨0⟩ ∧ s₁.Orderly ⟨0⟩ ∧ s₂.Orderly ⟨0⟩ ∧
      s₁.membersOf ⟨0⟩ .classType ≠ s₂.membersOf ⟨0⟩ .classType ∧
      Ensures (runPasses ⟨0⟩ (Pass.trees .spaces)) s₁ fun _ t₁ =>
        Ensures (runPasses ⟨0⟩ (Pass.trees .packages)) s₂ fun _ t₂ =>
          ∀ tree, Store.SameTree tree t₁ ⟨0⟩ t₂ ⟨0⟩ := by
  intro s₁ s₂
  have helement : ∀ e, (s₂.element e).kind = (s₁.element e).kind ∧
      (s₂.element e).tags = (s₁.element e).tags ∧ (s₂.element e).space = (s₁.element e).space := by
    intro e
    show ((s₁.updateElement ⟨0⟩ _).element e).kind = _ ∧ ((s₁.updateElement ⟨0⟩ _).element e).tags = _ ∧
      ((s₁.updateElement ⟨0⟩ _).element e).space = _
    rw [Store.element_updateElement]
    split
    · exact ⟨rfl, rfl, rfl⟩
    · exact ⟨rfl, rfl, rfl⟩
  have hreordered : s₁.Reordered ⟨0⟩ s₂ ⟨0⟩ := by
    refine ⟨.refl _, by decide, fun e _ => (helement e).1.symm, fun e _ => (helement e).2.1.symm, ?_⟩
    intro e _
    rw [Store.namedSpace, Store.namedSpace, Store.spacePath, Store.spacePath, (helement e).2.2]
    rfl
  have h₁ : s₁.Orderly ⟨0⟩ :=
    ⟨⟨by decide, by decide, by decide⟩, by decide, by decide, by decide +kernel⟩
  have h₂ : s₂.Orderly ⟨0⟩ :=
    ⟨⟨by decide, by decide, by decide⟩, by decide, by decide, by decide +kernel⟩
  exact ⟨hreordered, h₁, h₂, by decide, runPasses_reordered hreordered h₁ h₂ .spaces .packages⟩

end Docset
