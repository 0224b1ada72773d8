/-
  A full build never fails.

  What a pass does to a store that keeps a promise is told by a relation between the store before and the
  store after (`Pass.Keeps`).  If the relation is transitive, holds of all that no build notices, and keeps
  the promise (`Pass.Lasting`), then what the passes keep is kept by every run of them, in any number and
  order, and by every compiler (`Compiler.compile_keeps`).

  Here the promise is what callers give, and the relation is that the input is the same; a pass that keeps
  this is SAFE.

  1. Each pass of the library is safe (`Pass.safe_of_mem_builtin`).  For the two trees this is the work
     of `buildSpaces_ensures` and `buildPackages_ensures`.
  2. The promises are part of the input, and what the indexes held before does not matter, since no pass
     reads what it does not write first.  So being safe is lasting (`Pass.lasting_input`).
  3. So every compiler of passes of the library ends well, the standard one among them
     (`Compiler.compile_standard`).
-/
import Docset.Compiler
import Docset.Proofs.Namespace.Keys
import Docset.Proofs.Package.Named

namespace Docset

open Build

/-! ## Runs of passes -/

/-- A promise, and a relation between an earlier and a later store, that go along a run of passes. -/
structure Pass.Lasting (d : SetId) (P : Store → Prop) (R : Store → Store → Prop) : Prop where
  trans : ∀ {s t u}, R s t → R t u → R s u
  inert : ∀ {s t}, P s → Store.Inert d s t → R s t
  promise : ∀ {s t}, P s → R s t → P t

/-- On every store that keeps the promise, the pass ends well, goes on with the set, and comes to a store
    that is related to the first. -/
def Pass.Keeps (p : Pass) (d : SetId) (P : Store → Prop) (R : Store → Store → Prop) : Prop :=
  ∀ s, P s → Ensures (p.run d) s fun next t => next = some d ∧ R s t

/-- A pass that is announced runs on the store with the announcement. -/
theorem ok_of_runPass {p : Pass} {d : SetId} {s t : Store} {next : Option SetId}
    (h : runPass p d s = .ok next t) :
    p.run d (s.record compileLogger Level.info p.title) = .ok next t := by
  rw [runPass] at h
  cases hpass : p.run d (s.record compileLogger Level.info p.title) with
  | error cause u => rw [hpass] at h; cases h
  | ok next' u =>
    rw [hpass] at h
    cases h
    rfl

theorem ensures_runPass {p : Pass} {d : SetId} {s : Store} {Q : Option SetId → Store → Prop} :
    Ensures (runPass p d) s Q ↔ Ensures (p.run d) (s.record compileLogger Level.info p.title) Q := by
  constructor
  · rintro ⟨next, t, hrun, hQ⟩
    exact ⟨next, t, ok_of_runPass hrun, hQ⟩
  · rintro ⟨next, t, hrun, hQ⟩
    refine ⟨next, t, ?_, hQ⟩
    rw [runPass, hrun]

/-- A full build is a run of the passes, on a store that differs in settings at most. -/
theorem Compiler.compile_eq (c : Compiler) (d : SetId) (config : Option Config) (s : Store) :
    ∃ t, Store.Inert d s t ∧ c.compile d config s = runPasses d c.passes t := by
  cases config with
  | none => exact ⟨s, .refl d s, rfl⟩
  | some config => exact ⟨_, .putSettings s d (·.putAll config.settings), rfl⟩

section Runs

variable {d : SetId} {P : Store → Prop} {R : Store → Store → Prop} {s : Store}

theorem runPass_keeps (hlasting : Pass.Lasting d P R) {p : Pass} (hp : p.Keeps d P R) (hs : P s) :
    Ensures (runPass p d) s fun next t => next = some d ∧ R s t := by
  have hannounced := hlasting.inert hs (.record s d compileLogger Level.info p.title)
  rw [ensures_runPass]
  refine (hp _ (hlasting.promise hs hannounced)).mono fun next t ht => ?_
  exact ⟨ht.1, hlasting.trans hannounced ht.2⟩

/-- **What passes keep, runs of them keep.** -/
theorem runPasses_keeps (hlasting : Pass.Lasting d P R) {ps : List Pass}
    (hps : ∀ p ∈ ps, p.Keeps d P R) (hs : P s) :
    Ensures (runPasses d ps) s fun result t => result = d ∧ R s t := by
  induction ps generalizing s with
  | nil =>
    rw [runPasses, ensures_pure]
    exact ⟨rfl, hlasting.inert hs (.refl d s)⟩
  | cons p rest ih =>
    rw [runPasses, ensures_bind]
    refine (runPass_keeps hlasting (hps p List.mem_cons_self) hs).mono fun next t ht => ?_
    obtain ⟨rfl, ht⟩ := ht
    have hrest : ∀ q ∈ rest, q.Keeps d P R := fun q hq => hps q (List.mem_cons_of_mem _ hq)
    refine (ih hrest (hlasting.promise hs ht)).mono fun result u hu => ?_
    exact ⟨hu.1, hlasting.trans ht hu.2⟩

/-- What its passes keep, a compiler keeps, with or without a configuration. -/
theorem Compiler.compile_keeps (hlasting : Pass.Lasting d P R) {c : Compiler}
    (hc : ∀ p ∈ c.given, p.Keeps d P R) (config : Option Config) (hs : P s) :
    Ensures (c.compile d config) s fun result t => result = d ∧ R s t := by
  have hpasses : ∀ p ∈ c.passes, p.Keeps d P R := fun p hp => hc p (List.mem_mergeSort.1 hp)
  obtain ⟨t, hinert, heq⟩ := c.compile_eq d config s
  have hst := hlasting.inert hs hinert
  rw [Ensures, heq]
  refine (runPasses_keeps hlasting hpasses (hlasting.promise hs hst)).mono fun result u hu => ?_
  exact ⟨hu.1, hlasting.trans hst hu.2⟩

end Runs

/-! ## Safe passes -/

/-- What callers promise about a set. -/
structure Store.Promised (s : Store) (d : SetId) : Prop where
  code : s.DescribesCode d
  kinds : s.FiledByKind d
  files : s.FilesAreFiles d

theorem Store.SameInput.promised {s t : Store} {d : SetId} (h : Store.SameInput d s t)
    (hs : s.Promised d) : t.Promised d :=
  ⟨h.describesCode hs.code, h.filedByKind hs.kinds, h.filesAreFiles hs.files⟩

/-- On every store that keeps the promises, the pass ends well, goes on with the set and leaves its input
    alone. -/
def Pass.Safe (p : Pass) (d : SetId) : Prop := p.Keeps d (·.Promised d) (Store.SameInput d)

/-- The promises are part of the input. -/
theorem Pass.lasting_input (d : SetId) : Pass.Lasting d (·.Promised d) (Store.SameInput d) where
  trans := Store.SameInput.trans
  inert := fun _ h => h.input
  promise := fun hs h => h.promised hs

section Safe

variable {ε : Type} {d : SetId} {s : Store}

/-- Writing the indexes of elements touches no element and no node. -/
theorem extends_withElementIndexes (base : Nat) (s : Store) (d : SetId) :
    Store.Extends d base s (s.withElementIndexes d) := by
  have hset : ∀ (t : Store) (name : String) (index : Index),
      Store.Extends d base t (t.setIndex d name index) := by
    intro t name index
    refine .of_nodes rfl rfl ?_
    rw [Store.setIndex, Store.docSet_updateSet]
  rw [Store.withElementIndexes]
  refine List.foldlRecOn kindIndexes _ (hset s _ _) fun t ht pair _ => ?_
  exact ht.trans (hset t _ _)

theorem indexElements_ensures (base : Nat) :
    Ensures (indexElements d : Build ε Unit) s fun _ t => Store.Extends d base s t := by
  rw [indexElements, ensures_bind, ensures_get]
  cases (s.docSet d).code with
  | none =>
    rw [ensures_set]
    refine .of_nodes rfl rfl ?_
    rw [Store.setIndex, Store.docSet_updateSet]
  | some code =>
    have hrecord : ∀ (t : Store) (text : String), Store.Extends d base t
        (t.record "compiler.elements_index" Level.debug text) := fun _ _ => .of_nodes rfl rfl rfl
    rw [ensures_bind, ensures_set, ensures_debug]
    exact (extends_withElementIndexes base s d).trans (hrecord _ _)

/-- No build notices that source text was taken out. -/
theorem removeSources_inert :
    Ensures (removeSources d : Build ε Unit) s fun _ t => Store.Inert d s t := by
  rw [removeSources, ensures_bind, ensures_get]
  dsimp only
  cases (s.docSet d).code with
  | none =>
    rw [ensures_pure]
    exact .refl d s
  | some code =>
    dsimp only
    split
    · rw [ensures_pure]
      exact .refl d s
    · rw [ensures_bind, ensures_change, ensures_debug]
      exact (Store.Inert.dropSources s d _).trans (.record _ d _ _ _)

/-- **Every pass of the library is safe.** -/
theorem Pass.safe_of_mem_builtin {p : Pass} (hp : p ∈ Pass.builtin) : p.Safe d := by
  intro s hs
  rcases List.mem_cons.1 hp with rfl | hp
  · exact ensures_bind.2 ((indexElements_ensures s.nodes.size).mono fun _ _ ht =>
      ensures_pure.2 ⟨rfl, ht.sameInput⟩)
  rcases List.mem_cons.1 hp with rfl | hp
  · refine ensures_bind.2 (ensures_mapError.2 ?_)
    exact (buildSpaces_ensures hs.code hs.kinds).mono fun _ _ ht => ensures_pure.2 ⟨rfl, ht.input⟩
  rcases List.mem_cons.1 hp with rfl | hp
  · refine ensures_bind.2 (ensures_mapError.2 ?_)
    exact (buildPackages_ensures hs.code hs.kinds hs.files).mono fun _ _ ht =>
      ensures_pure.2 ⟨rfl, ht.input⟩
  · rw [List.mem_singleton.1 hp]
    exact ensures_bind.2 (removeSources_inert.mono fun _ _ ht => ensures_pure.2 ⟨rfl, ht.input⟩)

/-- A compiler of passes of the library ends well, with or without a configuration. -/
theorem Compiler.compile_ensures {c : Compiler} (hc : ∀ p ∈ c.given, p ∈ Pass.builtin)
    (config : Option Config) (hs : s.Promised d) :
    Ensures (c.compile d config) s fun result t => result = d ∧ Store.SameInput d s t :=
  c.compile_keeps (Pass.lasting_input d) (fun p hp => Pass.safe_of_mem_builtin (hc p hp)) config hs

end Safe

/-! ## The stages of a full build -/

/-- The order of running. -/
theorem Compiler.passes_standard : Compiler.standard.passes =
    [Pass.elementsIndex, Pass.packageTree, Pass.namespaceTree, Pass.removeSource] := by
  simp [passes, runningOrder, standard, Pass.builtin, List.mergeSort, List.MergeSort.Internal.splitInTwo,
    Pass.elementsIndex, Pass.packageTree, Pass.namespaceTree, Pass.removeSource]

/-- A step that answers with the set it was given. -/
theorem ok_of_goOn {step : Build PassFailure Unit} {d : SetId} {next : Option SetId} {s t : Store}
    (h : (do step; pure (some d) : Build PassFailure (Option SetId)) s = .ok next t) :
    next = some d ∧ step s = .ok () t := by
  obtain ⟨_, u, hstep, hpure⟩ := ok_of_bind h
  cases hpure
  exact ⟨rfl, hstep⟩

/-- A run of passes ends well because the first pass does, and the others after it. -/
theorem ok_of_runPasses_cons {p : Pass} {rest : List Pass} {d r : SetId} {s t : Store}
    {step : Build PassFailure Unit} (hp : p.run d = do step; pure (some d))
    (h : runPasses d (p :: rest) s = .ok r t) :
    ∃ u, step (s.record compileLogger Level.info p.title) = .ok () u ∧ runPasses d rest u = .ok r t := by
  rw [runPasses] at h
  obtain ⟨next, u, hpass, hrest⟩ := ok_of_bind h
  have hrun := ok_of_runPass hpass
  rw [hp] at hrun
  obtain ⟨rfl, hstep⟩ := ok_of_goOn hrun
  exact ⟨u, hstep, hrest⟩

/-- **The stages of a full build** that ends well, with changes between them that no build notices:
    elements are indexed, then the packages are built, and then the namespaces. -/
theorem Compiler.stages_of_compile {d r : SetId} {config : Option Config} {s t : Store}
    (h : standard.compile d config s = .ok r t) :
    r = d ∧ ∃ s₁ u₁ s₂ u₂ s₃ u₃,
      Store.Inert d s s₁ ∧ (indexElements d : Build PassFailure Unit) s₁ = .ok () u₁ ∧
      Store.Inert d u₁ s₂ ∧ buildPackages d s₂ = .ok () u₂ ∧
      Store.Inert d u₂ s₃ ∧ buildSpaces d s₃ = .ok () u₃ ∧ Store.Inert d u₃ t := by
  obtain ⟨s₀, hset, heq⟩ := standard.compile_eq d config s
  rw [heq, passes_standard] at h
  obtain ⟨u₁, hindex, h⟩ := ok_of_runPasses_cons rfl h
  obtain ⟨u₂, hpackages, h⟩ := ok_of_runPasses_cons rfl h
  obtain ⟨u₃, hspaces, h⟩ := ok_of_runPasses_cons rfl h
  obtain ⟨u₄, hsources, h⟩ := ok_of_runPasses_cons rfl h
  cases h
  refine ⟨rfl, _, u₁, _, u₂, _, u₃, hset.trans (.record s₀ _ _ _ _), hindex, .record u₁ _ _ _ _,
    ok_of_mapError hpackages, .record u₂ _ _ _ _, ok_of_mapError hspaces, ?_⟩
  exact (Store.Inert.record u₃ _ _ _ _).trans (removeSources_inert.of_ok hsources)

/-! ## The theorem -/

/-- **A full build never fails**: whatever namespaces and packages the elements of a set name, and
    whatever its indexes held before, the standard compiler comes back with the set. -/
theorem Compiler.compile_standard {s : Store} {d : SetId} (config : Option Config)
    (hcode : s.DescribesCode d) (hkinds : s.FiledByKind d) (hfiles : s.FilesAreFiles d) :
    ∃ t, Compiler.standard.compile d config s = .ok d t := by
  obtain ⟨result, t, hrun, rfl, -⟩ :=
    Compiler.compile_ensures (c := Compiler.standard) (fun _ hp => hp) config ⟨hcode, hkinds, hfiles⟩
  exact ⟨t, hrun⟩

/-- A class in a namespace that is no qualified name, where the index of namespaces held text under the
    root. -/
theorem Compiler.compile_standard_malformed :
    let s := (Store.ofDeclared [.declare .classType "\\X" "" (.path "\\1\\\\A\\") .unset]).putEntry
      ⟨0⟩ Tree.spaces.indexName Path.root (.foreign (.text "root"))
    s.DescribesCode ⟨0⟩ ∧ s.FiledByKind ⟨0⟩ ∧ s.FilesAreFiles ⟨0⟩ ∧
      ∃ t, Compiler.standard.compile ⟨0⟩ none s = .ok ⟨0⟩ t := by
  intro s
  have hcode : s.DescribesCode ⟨0⟩ := by decide
  have hkinds : s.FiledByKind ⟨0⟩ := by decide
  have hfiles : s.FilesAreFiles ⟨0⟩ := by decide
  exact ⟨hcode, hkinds, hfiles, Compiler.compile_standard none hcode hkinds hfiles⟩

end Docset
