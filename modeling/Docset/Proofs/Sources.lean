/-
  What becomes of the files of a set.

  A file is data of many passes: two of them bind elements, one drops source text, and a file is an element.
  Here it is settled which of its parts a run of passes may write.

  **The theorem** (`Compiler.compile_sources`): whatever passes of the library a compiler runs, after a build
  with a configuration each file is as it was, but for its package and its source text; and its source text is
  gone if the pass over source text was among them and the configuration does not ask for source text, and
  otherwise it is there as it was.

  1. Each pass keeps files but for their packages, except that one of them drops source text
     (`Pass.files_of_mem_builtin`).  The build of the namespaces binds nothing that has the kind of a file, so
     the promise on kinds is what keeps the namespace of a file (`FilesAreFiles.not_mem_declared`).
  2. The passes leave the settings alone (`Store.FilesKept.settings`), so what is asked for is the same all along
     a run, and a run drops source text if it has the one pass that does (`runPasses_files`).
  3. The configuration writes one setting before the first pass, over whatever the set had there
     (`Store.docSet_configured`).
-/
import Docset.Proofs.Calls
import Docset.Proofs.PassParts

namespace Docset

open Build

/-! ## Files as they were -/

/-- Dropping source text and forgetting the package can be done in either order. -/
theorem Element.unbound_withoutSource (e : Element) :
    e.withoutSource.unbound .packages = (e.unbound .packages).withoutSource := rfl

/-- What is the same but for the package, is the one with the package of the other. -/
theorem Element.eq_of_unbound {x y : Element} (h : x.unbound .packages = y.unbound .packages) :
    x = { y with package := x.package } := by
  have hback : ∀ e : Element, e = { e.unbound .packages with package := e.package } := fun _ => rfl
  rw [hback x, h]
  rfl

namespace Store

/-- The files of a set are as they were but for their packages; and where the source text is `gone`, but for
    that too. -/
structure FilesKept (d : SetId) (gone : Prop) (s t : Store) : Prop where
  input : SameInput d s t
  settings : (t.docSet d).settings = (s.docSet d).settings
  dropped : gone → ∀ file ∈ (s.files d).values,
    (t.element file).unbound .packages = (s.element file).withoutSource.unbound .packages
  kept : ¬ gone → ∀ file ∈ (s.files d).values,
    (t.element file).unbound .packages = (s.element file).unbound .packages

namespace FilesKept

variable {d : SetId} {gone gone' : Prop} {s t u : Store}

/-- Passes that change packages alone drop no source text. -/
theorem of_unbound (hinput : SameInput d s t) (hsettings : (t.docSet d).settings = (s.docSet d).settings)
    (hgone : ¬ gone) (hfiles : ∀ file ∈ (s.files d).values,
      (t.element file).unbound .packages = (s.element file).unbound .packages) : FilesKept d gone s t :=
  ⟨hinput, hsettings, fun h => absurd h hgone, fun _ => hfiles⟩

theorem of_eq (hgone : ¬ gone) (helements : t.elements = s.elements) (hsets : t.sets = s.sets) :
    FilesKept d gone s t := by
  refine of_unbound (.of_eq helements hsets) ?_ hgone fun file _ => ?_
  · rw [docSet, docSet, hsets]
  · rw [element, element, helements]

theorem congr (h : FilesKept d gone s t) (hiff : gone ↔ gone') : FilesKept d gone' s t :=
  ⟨h.input, h.settings, fun hgone => h.dropped (hiff.2 hgone), fun hgone => h.kept (mt hiff.1 hgone)⟩

/-- Source text is gone in the end if it went on the way. -/
theorem trans (hst : FilesKept d gone s t) (htu : FilesKept d gone' t u) :
    FilesKept d (gone ∨ gone') s u := by
  have hfiles : (t.files d).values = (s.files d).values := by rw [hst.input.files]
  refine ⟨hst.input.trans htu.input, htu.settings.trans hst.settings, fun hgone file hfile => ?_,
    fun hgone file hfile => ?_⟩
  · by_cases hlater : gone'
    · rw [htu.dropped hlater file (hfiles ▸ hfile), Element.unbound_withoutSource]
      by_cases hearlier : gone
      · rw [hst.dropped hearlier file hfile, Element.unbound_withoutSource,
          Element.withoutSource_withoutSource]
      · rw [hst.kept hearlier file hfile, Element.unbound_withoutSource]
    · rw [htu.kept hlater file (hfiles ▸ hfile)]
      exact hst.dropped (hgone.resolve_right hlater) file hfile
  · rw [not_or] at hgone
    rw [htu.kept hgone.2 file (hfiles ▸ hfile)]
    exact hst.kept hgone.1 file hfile

end FilesKept

/-- A file has no kind that files declare. -/
theorem FilesAreFiles.not_mem_declared {s : Store} {d : SetId} (hfiles : s.FilesAreFiles d)
    (hkinds : s.FiledByKind d) {file : ElementId} (hfile : file ∈ (s.files d).values) :
    file ∉ s.declared d Tree.spaces.kinds := by
  intro hmem
  have hkind := hkinds.kind_of_mem_declared hmem
  rw [hfiles file hfile] at hkind
  exact absurd hkind (by decide)

end Store

/-! ## Passes -/

section Passes

variable {d : SetId} {s : Store}

theorem indexElements_files {gone : Prop} (hgone : ¬ gone) (hs : s.Promised d) :
    Ensures (indexElements d : Build PassFailure Unit) s fun _ t => Store.FilesKept d gone s t := by
  refine ((indexElements_ensures s.nodes.size).and (indexElements_leaves hs.code)).mono ?_
  rintro _ t ⟨hextends, hleaves⟩
  refine .of_unbound hleaves.input hleaves.settings hgone fun file _ => ?_
  rw [Store.element, Store.element, hextends.elements]

theorem buildPackages_files {gone : Prop} (hgone : ¬ gone) (hs : s.Promised d) :
    Ensures (buildPackages d) s fun _ t => Store.FilesKept d gone s t := by
  obtain ⟨_, t, hrun, -⟩ := buildPackages_ensures hs.code hs.kinds hs.files
  have hwithin := (buildPackages_within d s).of_ok hrun
  exact ⟨_, t, hrun, .of_unbound hwithin.input hwithin.settings hgone fun file _ => hwithin.unbound file⟩

theorem buildSpaces_files {gone : Prop} (hgone : ¬ gone) (hs : s.Promised d) :
    Ensures (buildSpaces d) s fun _ t => Store.FilesKept d gone s t := by
  obtain ⟨_, t, hrun, -⟩ := buildSpaces_ensures hs.code hs.kinds
  have hwithin := (buildSpaces_within d s).of_ok hrun
  refine ⟨_, t, hrun, .of_unbound hwithin.input hwithin.settings hgone fun file hfile => ?_⟩
  rw [hwithin.element file (hs.files.not_mem_declared hs.kinds hfile)]

/-- Source text goes unless it is asked for. -/
theorem removeSources_files : Ensures (removeSources d : Build PassFailure Unit) s fun _ t =>
    Store.FilesKept d ((s.docSet d).includesSource = false) s t := by
  refine (removeSources_inert.and removeSources_ensures).mono ?_
  rintro _ t ⟨hinert, -, hsets, helement⟩
  have hsettings : (t.docSet d).settings = (s.docSet d).settings := by
    rw [Store.docSet, Store.docSet, hsets]
  refine ⟨hinert.input, hsettings, fun hasked file hfile => ?_, fun hasked file _ => ?_⟩
  · have hgone : file ∈ s.sourceless d := by
      rw [Store.sourceless, hasked]
      exact hfile
    rw [helement, if_pos hgone]
  · have hstays : file ∉ s.sourceless d := by
      rw [Store.sourceless, if_pos (by simpa using hasked)]
      exact List.not_mem_nil
    rw [helement, if_neg hstays]

/-- A run of the pass drops the source text of files. -/
def Pass.Drops (p : Pass) (s : Store) (d : SetId) : Prop :=
  Pass.removeSource = p ∧ (s.docSet d).includesSource = false

/-- **Every pass of the library** keeps files but for their packages, and but for their source text if it is
    the pass that drops it. -/
theorem Pass.files_of_mem_builtin {p : Pass} (hp : p ∈ Pass.builtin) (hs : s.Promised d) :
    Ensures (p.run d) s fun next t => next = some d ∧ Store.FilesKept d (p.Drops s d) s t := by
  have hother : ∀ q : Pass, q.name ≠ Pass.removeSource.name → ¬ q.Drops s d :=
    fun q hname hdrops => hname (congrArg Pass.name hdrops.1.symm)
  rcases List.mem_cons.1 hp with rfl | hp
  · exact ensures_bind.2 ((indexElements_files (hother _ (by decide)) hs).mono fun _ _ ht =>
      ensures_pure.2 ⟨rfl, ht⟩)
  rcases List.mem_cons.1 hp with rfl | hp
  · exact ensures_bind.2 (ensures_mapError.2 ((buildSpaces_files (hother _ (by decide)) hs).mono
      fun _ _ ht => ensures_pure.2 ⟨rfl, ht⟩))
  rcases List.mem_cons.1 hp with rfl | hp
  · exact ensures_bind.2 (ensures_mapError.2 ((buildPackages_files (hother _ (by decide)) hs).mono
      fun _ _ ht => ensures_pure.2 ⟨rfl, ht⟩))
  · rw [List.mem_singleton.1 hp]
    refine ensures_bind.2 (removeSources_files.mono fun _ _ ht => ensures_pure.2 ⟨rfl, ht.congr ?_⟩)
    exact ⟨fun hasked => ⟨rfl, hasked⟩, And.right⟩

/-- **A run of passes** drops source text if it has the pass that does, and the settings do not ask for source
    text. -/
theorem runPasses_files {ps : List Pass} (hps : ∀ p ∈ ps, p ∈ Pass.builtin) (hs : s.Promised d) :
    Ensures (runPasses d ps) s fun result t => result = d ∧
      Store.FilesKept d (Pass.removeSource ∈ ps ∧ (s.docSet d).includesSource = false) s t := by
  induction ps generalizing s with
  | nil =>
    rw [runPasses, ensures_pure]
    exact ⟨rfl, .of_eq (fun hgone => List.not_mem_nil hgone.1) rfl rfl⟩
  | cons p rest ih =>
    rw [runPasses, ensures_bind, ensures_runPass]
    have hannounced : Store.FilesKept d False s (s.record compileLogger Level.info p.title) :=
      .of_eq id rfl rfl
    have hp := Pass.files_of_mem_builtin (hps p List.mem_cons_self) (hannounced.input.promised hs)
    refine hp.mono fun next t ht => ?_
    obtain ⟨rfl, ht⟩ := ht
    have hst := hannounced.trans ht
    refine (ih (fun q hq => hps q (List.mem_cons_of_mem _ hq)) (hst.input.promised hs)).mono ?_
    rintro result u ⟨hresult, hu⟩
    -- The settings are the same after the pass, so both ask for the same.
    have hasked : (t.docSet d).includesSource = (s.docSet d).includesSource := by
      rw [DocSet.includesSource, DocSet.includesSource, hst.settings]
    refine ⟨hresult, (hst.trans hu).congr ?_⟩
    rw [false_or, hasked, List.mem_cons, or_and_right]
    exact Iff.rfl

end Passes

/-! ## Builds with a configuration -/

/-- A configuration writes one setting. -/
theorem Store.docSet_configured (s : Store) (d : SetId) (config : Config) :
    (s.configured d (some config)).docSet d = { s.docSet d with
      settings := (s.docSet d).settings.put includeSourceSetting (.flag config.includeSource) } := by
  rw [Store.configured, docSet_updateSet]
  rfl

/-- Whether source text is asked for is what the configuration says. -/
theorem Store.includesSource_configured (s : Store) (d : SetId) (config : Config) :
    ((s.configured d (some config)).docSet d).includesSource = config.includeSource := by
  rw [docSet_configured, DocSet.includesSource, Ledger.get?_put_self]
  rfl

/-- **Source text stays or goes as the configuration says**, and nothing else becomes of files but that they
    get packages.  A build of passes of the library, with a configuration, ends well.  After it the setting for
    source text is that of the configuration, whatever it was, and all other settings are as they were.  If the
    pass over source text is among the passes and the configuration does not ask for source text, every file is
    as it was but for its package, and without source text; else every file is as it was but for its package,
    source text included. -/
theorem Compiler.compile_sources {c : Compiler} (hc : ∀ p ∈ c.given, p ∈ Pass.builtin) (config : Config)
    {s : Store} {d : SetId} (hcode : s.DescribesCode d) (hkinds : s.FiledByKind d)
    (hfiles : s.FilesAreFiles d) :
    ∃ t, c.compile d (some config) s = .ok d t ∧
      (t.docSet d).settings =
        (s.docSet d).settings.put includeSourceSetting (.flag config.includeSource) ∧
      (∀ name, name ≠ includeSourceSetting →
        (t.docSet d).settings.get? name = (s.docSet d).settings.get? name) ∧
      (Pass.removeSource ∈ c.given ∧ config.includeSource = false →
        ∀ file ∈ (s.files d).values,
          t.element file = { s.element file with
            package := (t.element file).package
            file := (s.element file).file.map fun data => { data with source := none } }) ∧
      (¬ (Pass.removeSource ∈ c.given ∧ config.includeSource = false) →
        ∀ file ∈ (s.files d).values,
          t.element file = { s.element file with package := (t.element file).package }) := by
  have hset := Store.docSet_configured s d config
  have hinert : Store.Inert d s (s.configured d (some config)) := .putSettings s d (·.putAll config.settings)
  have hpasses : ∀ p ∈ c.passes, p ∈ Pass.builtin := fun p hp => hc p (List.mem_mergeSort.1 hp)
  obtain ⟨result, t, hrun, rfl, ht⟩ :=
    runPasses_files hpasses (hinert.input.promised ⟨hcode, hkinds, hfiles⟩)
  have hsettings := ht.settings
  rw [hset] at hsettings
  have hgone : Pass.removeSource ∈ c.passes ∧
      ((s.configured result (some config)).docSet result).includesSource = false ↔
        Pass.removeSource ∈ c.given ∧ config.includeSource = false := by
    rw [Store.includesSource_configured, Compiler.passes, runningOrder, List.mem_mergeSort]
  have hkept := ht.congr hgone
  have hvalues : ((s.configured result (some config)).files result).values = (s.files result).values := by
    rw [hinert.input.files]
  refine ⟨t, hrun, hsettings, fun name hname => ?_, fun hdrops file hfile => ?_,
    fun hdrops file hfile => ?_⟩
  · rw [hsettings, Ledger.get?_put_of_ne (Ne.symm hname)]
  · exact Element.eq_of_unbound (hkept.dropped hdrops file (hvalues ▸ hfile))
  · exact Element.eq_of_unbound (hkept.kept hdrops file (hvalues ▸ hfile))

/-- A file whose set asks for source text, built by the passes of two names with a configuration that does
    not. -/
theorem Compiler.compile_sources_overruled :
    let declared := Store.ofDeclared [.declare .classType "\\A\\X" "" (.path "\\A") .unset]
    let s := (declared.updateElement ⟨0⟩ fun e =>
      { e with file := some ⟨"a.php", "", some "<?php"⟩ }).putSetting ⟨0⟩ includeSourceSetting (.flag true)
    let config : Config := { root := ⟨["base"]⟩ }
    s.DescribesCode ⟨0⟩ ∧ s.FiledByKind ⟨0⟩ ∧ s.FilesAreFiles ⟨0⟩ ∧
      ∃ c, Compiler.ofEnabled (some ["Remove-Source", "namespace-tree"]) = .ok c ∧
        (∀ p ∈ c.given, p ∈ Pass.builtin) ∧ Pass.removeSource ∈ c.given ∧
        ∃ t, c.compile ⟨0⟩ (some config) s = .ok ⟨0⟩ t ∧
          (t.docSet ⟨0⟩).settings.get? includeSourceSetting = some (.flag false) ∧
          (t.element ⟨0⟩).file = some ⟨"a.php", "", none⟩ := by
  intro declared s config
  have hcode : s.DescribesCode ⟨0⟩ := by decide
  have hkinds : s.FiledByKind ⟨0⟩ := by decide
  have hfiles : s.FilesAreFiles ⟨0⟩ := by decide
  have hdiffer : [Pass.namespaceTree, Pass.removeSource].Pairwise Pass.Differ := by decide
  have hmade : Compiler.ofEnabled (some ["Remove-Source", "namespace-tree"]) =
      .ok ⟨[Pass.namespaceTree, Pass.removeSource], hdiffer⟩ := Compiler.ofPasses_eq_ok hdiffer
  have hbuiltin : ∀ p ∈ [Pass.namespaceTree, Pass.removeSource], p ∈ Pass.builtin := by
    simp [Pass.builtin]
  have hmem : Pass.removeSource ∈ [Pass.namespaceTree, Pass.removeSource] := by simp
  refine ⟨hcode, hkinds, hfiles, _, hmade, hbuiltin, hmem, ?_⟩
  obtain ⟨t, hrun, hsettings, -, hdropped, -⟩ :=
    Compiler.compile_sources (c := ⟨_, hdiffer⟩) hbuiltin config hcode hkinds hfiles
  have hfile : (⟨0⟩ : ElementId) ∈ (s.files ⟨0⟩).values := by decide
  refine ⟨t, hrun, ?_, ?_⟩
  · rw [hsettings, Ledger.get?_put_self]
  · rw [hdropped ⟨hmem, rfl⟩ _ hfile]
    rfl

end Docset
