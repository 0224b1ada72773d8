/-
  The index of elements after a full build.

  **The theorem** (`Compiler.compile_elements`): elements and namespaces share one index and do not get in
  each other's way.  The keys with the mark `~` are those of the namespaces, each for the node that the
  namespaces have under the path; the rest is what was there when elements had been indexed, entry by
  entry.  All that is asked for is that no element's own name begins with the mark, so a class may be
  spelled like a namespace.

  1. Elements are indexed anew, and so no marked key is left from before (`indexElements_index`,
     `unmarked_indexOf`).
  2. The packages write elsewhere (`buildPackages_within`).
  3. The namespaces add all of theirs, and write nothing else (`buildSpaces_entered`).
-/
import Docset.Proofs.Footprint
import Docset.Proofs.Indexing
import Docset.Proofs.Namespace.Entered
import Docset.Proofs.Reading

namespace Docset

open Build

variable {ε : Type} {d : SetId} {s t : Store}

/-! ## Indexing elements -/

theorem Store.SameInput.indexOf (h : SameInput d s t) (es : List ElementId) :
    t.indexOf es = s.indexOf es := by
  have hkey : ∀ e, t.indexKey e = s.indexKey e := fun e =>
    (congrArg Element.qualifiedName (h.element e) :)
  rw [Store.indexOf, Store.indexOf, Store.enter, Store.enter]
  exact congrArg (Ledger.empty.putAll ·)
    (List.map_congr_left fun e _ => congrArg (·, Entry.element e) (hkey e))

/-- The indexes of single kinds are others than the one of all elements. -/
theorem index_withElementIndexes (s : Store) (d : SetId) :
    (s.withElementIndexes d).index d elementsIndex = s.indexOf (s.indexed d) := by
  rw [Store.index, Store.index?_withElementIndexes s d List.mem_cons_self]
  rfl

/-- Elements are indexed anew, each under its name. -/
theorem indexElements_index (hcode : s.DescribesCode d) :
    Ensures (indexElements d : Build ε Unit) s fun _ t =>
      t.index d elementsIndex = s.indexOf (s.indexed d) := by
  obtain ⟨code, hcode⟩ := Option.isSome_iff_exists.1 hcode
  rw [indexElements, ensures_bind, ensures_get, hcode]
  dsimp only
  rw [ensures_bind, ensures_set, ensures_debug, Store.index, (Store.Inert.record _ d _ _ _).index]
  exact index_withElementIndexes s d

/-! ## Elements without a mark -/

theorem mem_keys_indexOf {es : List ElementId} {key : String} :
    key ∈ (s.indexOf es).keys ↔ ∃ e ∈ es, s.indexKey e = key := by
  rw [Store.indexOf, Store.enter, Ledger.mem_keys_putAll, List.map_map, List.mem_map]
  constructor
  · rintro (hkey | hkey)
    · cases hkey
    · exact hkey
  · exact Or.inr

section Unmarked

variable {es : List ElementId} (hes : ∀ e ∈ es, isMarked (s.indexKey e) = false)

include hes

theorem isMarked_of_mem_keys_indexOf {key : String} (hkey : key ∈ (s.indexOf es).keys) :
    isMarked key = false := by
  obtain ⟨e, he, rfl⟩ := mem_keys_indexOf.1 hkey
  exact hes e he

/-- Where no element is marked, all of the index is unmarked. -/
theorem unmarked_indexOf : Index.unmarked (s.indexOf es) = (s.indexOf es).entries := by
  refine List.filter_eq_self.2 fun pair hpair => ?_
  rw [isMarked_of_mem_keys_indexOf hes (List.mem_map.2 ⟨pair, hpair, rfl⟩)]
  rfl

theorem get?_marked_indexOf (path : String) : (s.indexOf es).get? ("~" ++ path) = none := by
  refine Ledger.get?_eq_none_iff.2 fun hkey => ?_
  have hmarked : isMarked ("~" ++ path) = true := isMarked_iff.2 ⟨path, rfl⟩
  rw [isMarked_of_mem_keys_indexOf hes hkey] at hmarked
  cases hmarked

end Unmarked

/-! ## Full builds -/

/-- Namespaces and elements after a full build: what is marked is theirs alone, and the rest is as
    indexing left it. -/
theorem Compiler.elements_of_compile {r : SetId} {config : Option Config}
    (hcode : s.DescribesCode d) (hkinds : s.FiledByKind d)
    (hnames : ∀ e ∈ s.indexed d, isMarked (s.indexKey e) = false)
    (h : standard.compile d config s = .ok r t) :
    (∀ p, (t.index d elementsIndex).get? ("~" ++ p) = (t.index d Tree.spaces.indexName).get? p) ∧
      (∀ p ∈ (t.index d Tree.spaces.indexName).keys, ∃ n,
        (t.index d Tree.spaces.indexName).get? p = some (.node n) ∧ (t.node n).path = p) ∧
      Index.unmarked (t.index d elementsIndex) = (s.indexOf (s.indexed d)).entries := by
  obtain ⟨-, s₁, u₁, s₂, u₂, s₃, u₃, h₁, hindex, h₂, hpackages, h₃, hspaces, hlast⟩ :=
    stages_of_compile h
  have hwithin := (buildPackages_within d s₂).of_ok hpackages
  have hinput₂ : Store.SameInput d s s₂ :=
    h₁.input.trans (((indexElements_ensures 0).of_ok hindex).sameInput.trans h₂.input)
  have hinput₃ : Store.SameInput d s s₃ := hinput₂.trans (hwithin.input.trans h₃.input)
  -- The namespaces find the index of elements as indexing left it.
  have helements : s₃.index d elementsIndex = s.indexOf (s.indexed d) := by
    have hu₁ := (indexElements_index (h₁.input.describesCode hcode)).of_ok hindex
    rw [h₁.input.indexed, h₁.input.indexOf] at hu₁
    rw [← hu₁, Store.index, Store.index, h₃.index, hwithin.index _ (by decide), h₂.index]
  have hcode₃ := hinput₃.describesCode hcode
  have hkinds₃ := hinput₃.filedByKind hkinds
  obtain ⟨hmarked, hothers⟩ := (buildSpaces_entered hcode₃ hkinds₃).of_ok hspaces
  have hregistry := ((buildSpaces_ensures hcode₃ hkinds₃).of_ok hspaces).forest.registry
  have hsame : ∀ name, t.index d name = u₃.index d name := by
    intro name
    rw [Store.index, Store.index, hlast.index]
  rw [helements] at hothers
  rw [hsame, hsame]
  refine ⟨fun p => ?_, fun p hp => ?_, ?_⟩
  · rw [hmarked p, helements, get?_marked_indexOf hnames]
    split
    · rfl
    · rename_i hp
      exact (Ledger.get?_eq_none_iff.2 hp).symm
  · obtain ⟨n, hn, rfl⟩ := hregistry.mem_keys.1 hp
    refine ⟨n, hregistry.get?_path hn, ?_⟩
    rw [Store.node, hlast.nodes]
    rfl
  · rw [hothers, unmarked_indexOf hnames]

/-- **Namespaces and elements share an index without getting in each other's way.**  If no element that
    is indexed has the mark in its own name, then after a full build the marked keys are those of the
    namespaces with the mark in front, each for the very node that the namespaces have; and all that is
    unmarked is what indexing the elements writes, entry by entry.  A full build comes back if what is
    listed as a file is one. -/
theorem Compiler.compile_elements {s : Store} {d : SetId} (config : Option Config)
    (hcode : s.DescribesCode d) (hkinds : s.FiledByKind d)
    (hnames : ∀ e ∈ s.indexed d, isMarked (s.indexKey e) = false) :
    (s.FilesAreFiles d → ∃ t, standard.compile d config s = .ok d t) ∧
      ∀ r t, standard.compile d config s = .ok r t →
        (∀ key, (key ∈ (t.index d elementsIndex).keys ∧ isMarked key = true) ↔
          ∃ p ∈ (t.index d Tree.spaces.indexName).keys, key = "~" ++ p) ∧
        (∀ p ∈ (t.index d Tree.spaces.indexName).keys, ∃ n,
          (t.index d Tree.spaces.indexName).get? p = some (.node n) ∧ (t.node n).path = p ∧
            (t.index d elementsIndex).get? ("~" ++ p) = some (.node n)) ∧
        Ensures (indexElements d : Build PassFailure Unit) s fun _ u =>
          ((t.index d elementsIndex).entries.filter fun pair => !isMarked pair.1) =
            (u.index d elementsIndex).entries := by
  refine ⟨fun hfiles => ?_, fun r t h => ?_⟩
  · obtain ⟨r, t, hrun, rfl, -⟩ :=
      compile_ensures (c := standard) (fun _ hp => hp) config ⟨hcode, hkinds, hfiles⟩
    exact ⟨t, hrun⟩
  · obtain ⟨hmarked, hnodes, hothers⟩ := elements_of_compile hcode hkinds hnames h
    refine ⟨fun key => ?_, fun p hp => ?_, ?_⟩
    · constructor
      · rintro ⟨hkey, hmark⟩
        obtain ⟨p, rfl⟩ := isMarked_iff.1 hmark
        rw [Ledger.mem_keys_iff, hmarked, ← Ledger.mem_keys_iff] at hkey
        exact ⟨p, hkey, rfl⟩
      · rintro ⟨p, hp, rfl⟩
        rw [Ledger.mem_keys_iff, hmarked, ← Ledger.mem_keys_iff]
        exact ⟨hp, isMarked_iff.2 ⟨p, rfl⟩⟩
    · obtain ⟨n, hget, hpath⟩ := hnodes p hp
      exact ⟨n, hget, hpath, (hmarked p).trans hget⟩
    · refine (indexElements_index hcode).mono fun _ u hu => ?_
      rw [hu]
      exact hothers

/-- A class spelled like the namespace of another, and a class in a namespace that is no qualified name:
    the name leads to the class, and with the mark to the namespace. -/
theorem Compiler.compile_elements_alike :
    let s := Store.ofDeclared [.declare .classType "\\A\\B" "" (.path "\\A") .unset,
      .declare .classType "\\A\\B\\X" "" (.path "\\A\\B") .unset,
      .declare .classType "\\Y" "" (.path "1\\\\~\\") .unset]
    s.DescribesCode ⟨0⟩ ∧ s.FiledByKind ⟨0⟩ ∧
      (∀ e ∈ s.indexed ⟨0⟩, isMarked (s.indexKey e) = false) ∧
      ∃ t, standard.compile ⟨0⟩ none s = .ok ⟨0⟩ t ∧
        ((t.index ⟨0⟩ elementsIndex).entries.filter fun pair => !isMarked pair.1) =
          [("\\A\\B", .element ⟨1⟩), ("\\A\\B\\X", .element ⟨2⟩), ("\\Y", .element ⟨3⟩)] ∧
        ∀ p ∈ (t.index ⟨0⟩ Tree.spaces.indexName).keys, ∃ n, (t.node n).path = p ∧
          (t.index ⟨0⟩ elementsIndex).get? ("~" ++ p) = some (.node n) := by
  intro s
  have hcode : s.DescribesCode ⟨0⟩ := by decide
  have hkinds : s.FiledByKind ⟨0⟩ := by decide
  have hnames : ∀ e ∈ s.indexed ⟨0⟩, isMarked (s.indexKey e) = false := by decide
  obtain ⟨hends, hholds⟩ := Compiler.compile_elements none hcode hkinds hnames
  obtain ⟨t, hrun⟩ := hends (by decide)
  obtain ⟨-, hnodes, _, u, hindex, hothers⟩ := hholds _ t hrun
  refine ⟨hcode, hkinds, hnames, t, hrun, ?_, fun p hp => ?_⟩
  · rw [hothers, (indexElements_index hcode).of_ok hindex]
    rfl
  · obtain ⟨n, -, hpath, hget⟩ := hnodes p hp
    exact ⟨n, hpath, hget⟩

end Docset
