/-
  The order in which passes are given does not matter.

  **The theorem** (`Compiler.order_irrelevant`) compares two plans.  Two lists of the same passes are both
  refused or make compilers that do the same; two lists of enabled names that are the same in lower case
  choose the same passes, or miss the same ones.

  1. Passes are refused exactly if two of them, wherever they stand, share a priority or a description
     (`Compiler.ofPasses_eq_error_iff`).
  2. Sorting forgets the order where no two members can each stand before the other
     (`mergeSort_eq_of_perm`).  Passes that are not refused have different priorities, so there is one order
     of running (`runningOrder_eq_of_perm`); that the sort is stable is not needed.
  3. Of enabled names only the set of what they are in lower case is left (`wantedNames_perm`).  The unknown
     ones are sorted before they are told, and the known ones pick from the library, which has an order of
     its own.
-/
import Mathlib.Data.List.Pairwise
import Mathlib.Data.List.Perm.Basic
import Docset.Compiler

namespace Docset

open Docset.Text

/-! ## Sorting -/

section Sorting

variable {α : Type} {r : α → α → Prop} [DecidableRel r]

theorem pairwise_mergeSort (htrans : ∀ a b c, r a b → r b c → r a c) (htotal : ∀ a b, r a b ∨ r b a)
    (as : List α) : (as.mergeSort fun a b => decide (r a b)).Pairwise r := by
  refine (List.pairwise_mergeSort ?_ ?_ as).imp fun h => of_decide_eq_true h
  · intro a b c hab hbc
    rw [decide_eq_true_eq] at *
    exact htrans a b c hab hbc
  · intro a b
    rw [Bool.or_eq_true, decide_eq_true_eq, decide_eq_true_eq]
    exact htotal a b

/-- **Sorting forgets the order**, where no two members can each stand before the other. -/
theorem mergeSort_eq_of_perm (htrans : ∀ a b c, r a b → r b c → r a c) (htotal : ∀ a b, r a b ∨ r b a)
    {as bs : List α} (h : as.Perm bs) (hanti : ∀ a ∈ as, ∀ b ∈ as, r a b → r b a → a = b) :
    (as.mergeSort fun a b => decide (r a b)) = bs.mergeSort fun a b => decide (r a b) := by
  have has := List.mergeSort_perm as fun a b => decide (r a b)
  have hbs := List.mergeSort_perm bs fun a b => decide (r a b)
  apply List.Perm.eq_of_pairwise ?_ (pairwise_mergeSort htrans htotal as)
    (pairwise_mergeSort htrans htotal bs) (has.trans (h.trans hbs.symm))
  intro a b ha hb
  exact hanti a (has.mem_iff.1 ha) b (h.mem_iff.2 (hbs.mem_iff.1 hb))

end Sorting

/-! ## Passes that can be told apart -/

theorem Pass.Differ.symm {p q : Pass} (h : p.Differ q) : q.Differ p :=
  ⟨h.1.symm, h.2.symm⟩

instance : Std.Symm Pass.Differ := ⟨fun _ _ h => h.symm⟩

/-- Two passes at different places share a priority or a description. -/
def PassesClash (ps : List Pass) : Prop :=
  ∃ i j, ∃ (hi : i < ps.length) (hj : j < ps.length), i ≠ j ∧
    (ps[i].priority = ps[j].priority ∨ ps[i].description = ps[j].description)

/-- It is enough to look at each pass and those after it. -/
theorem pairwise_differ_iff {ps : List Pass} : ps.Pairwise Pass.Differ ↔ ¬ PassesClash ps := by
  rw [List.pairwise_iff_getElem]
  constructor
  · rintro hdiffer ⟨i, j, hi, hj, hne, hshare⟩
    have happart : ps[i].Differ ps[j] := by
      rcases Nat.lt_or_gt_of_ne hne with hlt | hgt
      · exact hdiffer i j hi hj hlt
      · exact (hdiffer j i hj hi hgt).symm
    rcases hshare with hpriority | hdescription
    · exact happart.1 hpriority
    · exact happart.2 hdescription
  · intro hnone i j hi hj hlt
    constructor
    · intro hpriority
      exact hnone ⟨i, j, hi, hj, by omega, Or.inl hpriority⟩
    · intro hdescription
      exact hnone ⟨i, j, hi, hj, by omega, Or.inr hdescription⟩

/-- Where passes stand does not matter for whether they clash. -/
theorem PassesClash.perm {ps qs : List Pass} (h : ps.Perm qs) : PassesClash ps ↔ PassesClash qs := by
  have hpairs := h.pairwise_iff (R := Pass.Differ) Pass.Differ.symm
  rw [pairwise_differ_iff, pairwise_differ_iff] at hpairs
  exact not_iff_not.1 hpairs

namespace Compiler

theorem ofPasses_eq_ok {ps : List Pass} (h : ps.Pairwise Pass.Differ) : ofPasses ps = .ok ⟨ps, h⟩ := by
  unfold ofPasses
  split
  · rfl
  · rename_i e he
    rw [checkUnique_eq_ok_iff.2 h] at he
    cases he

theorem given_of_ofPasses {ps : List Pass} {c : Compiler} (h : ofPasses ps = .ok c) : c.given = ps := by
  unfold ofPasses at h
  split at h
  · cases h
    rfl
  · cases h

/-- **Passes are refused** exactly if two of them clash. -/
theorem ofPasses_eq_error_iff {ps : List Pass} : (∃ e, ofPasses ps = .error e) ↔ PassesClash ps := by
  constructor
  · rintro ⟨e, he⟩
    by_contra hnone
    rw [ofPasses_eq_ok (pairwise_differ_iff.2 hnone)] at he
    cases he
  · intro hclash
    cases hmade : ofPasses ps with
    | error e => exact ⟨e, rfl⟩
    | ok c =>
      have hdistinct := c.distinct
      rw [given_of_ofPasses hmade] at hdistinct
      exact absurd hclash (pairwise_differ_iff.1 hdistinct)

end Compiler

/-! ## The order of running -/

theorem runningOrder_perm (ps : List Pass) : (runningOrder ps).Perm ps :=
  List.mergeSort_perm ps _

/-- No pass stands before one with a higher priority. -/
theorem pairwise_runningOrder (ps : List Pass) :
    (runningOrder ps).Pairwise fun p q => q.priority ≤ p.priority := by
  apply pairwise_mergeSort
  · intro p q r hpq hqr
    omega
  · intro p q
    omega

/-- **There is one order of running** for passes that can be told apart. -/
theorem runningOrder_eq_of_perm {ps qs : List Pass} (h : ps.Perm qs) (hps : ps.Pairwise Pass.Differ) :
    runningOrder ps = runningOrder qs := by
  apply mergeSort_eq_of_perm
  · intro p q r hpq hqr
    omega
  · intro p q
    omega
  · exact h
  · intro p hp q hq hqp hpq
    by_contra hne
    -- Two passes of the list differ in priority, so they cannot each stand before the other.
    exact (hps.forall hp hq hne).1 (by omega)

namespace Compiler

theorem passes_perm (c : Compiler) : c.passes.Perm c.given := runningOrder_perm c.given

/-- **Passes run by falling priority**, and no two have the same. -/
theorem passes_descending (c : Compiler) : c.passes.Pairwise fun p q => q.priority < p.priority := by
  have hdiffer : c.passes.Pairwise Pass.Differ :=
    (c.passes_perm.pairwise_iff Pass.Differ.symm).2 c.distinct
  refine ((pairwise_runningOrder c.given).and hdiffer).imp ?_
  rintro p q ⟨hle, hne, -⟩
  omega

/-- Passes that do not clash make compilers with one order of running, however they are listed. -/
theorem passes_eq_of_perm {ps qs : List Pass} (h : ps.Perm qs) (hnone : ¬ PassesClash ps) :
    ∃ c₁ c₂, ofPasses ps = .ok c₁ ∧ ofPasses qs = .ok c₂ ∧ c₁.passes = c₂.passes := by
  have hps := pairwise_differ_iff.2 hnone
  have hqs := (h.pairwise_iff Pass.Differ.symm).1 hps
  exact ⟨_, _, ofPasses_eq_ok hps, ofPasses_eq_ok hqs, runningOrder_eq_of_perm h hps⟩

end Compiler

/-! ## Enabled names -/

theorem nodup_eraseDups (names : List String) : names.eraseDups.Nodup := by
  cases names with
  | nil => exact List.nodup_nil
  | cons name rest =>
    rw [List.eraseDups_cons, List.nodup_cons]
    constructor
    · intro hmem
      have hother := (List.mem_filter.1 (List.mem_eraseDups.1 hmem)).2
      simp at hother
    · exact nodup_eraseDups _
termination_by names.length
decreasing_by
  have hshort := List.length_filter_le (fun other => !(other == name)) rest
  rw [List.length_cons]
  omega

/-- The same names in lower case are wanted in some order. -/
theorem wantedNames_perm {names₁ names₂ : List String}
    (h : ∀ name, name ∈ names₁.map lower ↔ name ∈ names₂.map lower) :
    (wantedNames names₁).Perm (wantedNames names₂) := by
  refine (List.perm_ext_iff_of_nodup (nodup_eraseDups _) (nodup_eraseDups _)).2 ?_
  intro name
  rw [List.mem_eraseDups, List.mem_eraseDups]
  exact h name

/-- The names that no pass of the library has. -/
def unknownNames (enabled : List String) : List String :=
  (wantedNames enabled).filter fun name => !(Pass.builtin.any (·.name == name))

theorem mem_unknownNames {enabled : List String} {name : String} :
    name ∈ unknownNames enabled ↔ name ∈ enabled.map lower ∧ ∀ p ∈ Pass.builtin, p.name ≠ name := by
  rw [unknownNames, List.mem_filter, wantedNames, List.mem_eraseDups]
  simp

/-- What is chosen where no name is unknown. -/
theorem discoverPasses_eq_ok {enabled : List String} (h : unknownNames enabled = []) :
    discoverPasses (some enabled) =
      .ok (Pass.builtin.filter fun p => (wantedNames enabled).contains p.name) := by
  rw [unknownNames] at h
  rw [discoverPasses]
  simp only [h]

theorem discoverPasses_eq_error {enabled : List String} (h : unknownNames enabled ≠ []) :
    discoverPasses (some enabled) =
      .error (.unknownPasses ((unknownNames enabled).mergeSort fun a b => decide (a ≤ b))) := by
  rw [unknownNames] at h ⊢
  rw [discoverPasses]
  split
  · rename_i hnone
    exact absurd hnone h
  · rfl

/-- **Names are refused** exactly if one of them, in lower case, is the name of no pass of the library. -/
theorem discoverPasses_eq_error_iff {enabled : List String} :
    (∃ e, discoverPasses (some enabled) = .error e) ↔
      ∃ name ∈ enabled.map lower, ∀ p ∈ Pass.builtin, p.name ≠ name := by
  constructor
  · rintro ⟨e, he⟩
    have hsome : unknownNames enabled ≠ [] := by
      intro hnone
      rw [discoverPasses_eq_ok hnone] at he
      cases he
    obtain ⟨name, hname⟩ := List.exists_mem_of_ne_nil _ hsome
    exact ⟨name, mem_unknownNames.1 hname⟩
  · rintro ⟨name, hname⟩
    have hsome : unknownNames enabled ≠ [] := List.ne_nil_of_mem (mem_unknownNames.2 hname)
    exact ⟨_, discoverPasses_eq_error hsome⟩

/-- The same names in lower case choose the same passes, or miss the same ones. -/
theorem discoverPasses_congr {names₁ names₂ : List String}
    (h : ∀ name, name ∈ names₁.map lower ↔ name ∈ names₂.map lower) :
    discoverPasses (some names₁) = discoverPasses (some names₂) := by
  have hwanted := wantedNames_perm h
  have hunknown : (unknownNames names₁).Perm (unknownNames names₂) := hwanted.filter _
  by_cases hnone : unknownNames names₁ = []
  · have hnone' : unknownNames names₂ = [] := by
      rw [hnone] at hunknown
      exact hunknown.nil_eq.symm
    rw [discoverPasses_eq_ok hnone, discoverPasses_eq_ok hnone']
    have hcontains : ∀ name, (wantedNames names₁).contains name = (wantedNames names₂).contains name := by
      intro name
      rw [Bool.eq_iff_iff, List.contains_iff_mem, List.contains_iff_mem]
      exact hwanted.mem_iff
    simp only [hcontains]
  · have hsome : unknownNames names₂ ≠ [] := by
      intro hnone'
      rw [hnone'] at hunknown
      exact hnone hunknown.eq_nil
    have hsorted : ((unknownNames names₁).mergeSort fun a b => decide (a ≤ b)) =
        (unknownNames names₂).mergeSort fun a b => decide (a ≤ b) := by
      apply mergeSort_eq_of_perm
      · exact fun _ _ _ => String.le_trans
      · exact String.le_total
      · exact hunknown
      · exact fun _ _ _ _ => String.le_antisymm
    rw [discoverPasses_eq_error hnone, discoverPasses_eq_error hsome, hsorted]

/-- Each pass of the library is there once, and any two can be told apart. -/
theorem pairwise_builtin : Pass.builtin.Pairwise Pass.Differ := Compiler.standard.distinct

/-- **What is chosen**: the passes of the library with the names, each once; and they do not clash. -/
theorem chosen_of_discoverPasses {enabled : List String} {ps : List Pass}
    (h : discoverPasses (some enabled) = .ok ps) :
    ps.Nodup ∧ (∀ p, p ∈ ps ↔ p ∈ Pass.builtin ∧ p.name ∈ enabled.map lower) ∧
      ps.Pairwise Pass.Differ := by
  have hnone : unknownNames enabled = [] := by
    by_contra hsome
    rw [discoverPasses_eq_error hsome] at h
    cases h
  rw [discoverPasses_eq_ok hnone] at h
  cases h
  have hdiffer := pairwise_builtin.filter fun p => (wantedNames enabled).contains p.name
  refine ⟨?_, ?_, hdiffer⟩
  · exact hdiffer.imp fun hpq heq => hpq.1 (congrArg Pass.priority heq)
  · intro p
    rw [List.mem_filter, List.contains_iff_mem, wantedNames, List.mem_eraseDups]

/-! ## The theorem -/

/-- **The order in which passes are given never matters.**  Passes that are listed in two ways are refused
    in both, exactly if two of them clash, or make compilers that run them in one order and compile alike.
    Names that are the same in lower case are refused alike, exactly if one is unknown, or choose the same
    passes of the library, each once, which make the same compiler. -/
theorem Compiler.order_irrelevant :
    (∀ ps qs : List Pass, ps.Perm qs →
      ((∃ e, ofPasses ps = .error e) ↔ PassesClash ps) ∧
      ((∃ e, ofPasses qs = .error e) ↔ PassesClash ps) ∧
      (¬ PassesClash ps → ∃ c₁ c₂, ofPasses ps = .ok c₁ ∧ ofPasses qs = .ok c₂ ∧
        c₁.passes = c₂.passes ∧ ∀ d config s, c₁.compile d config s = c₂.compile d config s)) ∧
    (∀ names₁ names₂ : List String,
      (∀ name, name ∈ names₁.map lower ↔ name ∈ names₂.map lower) →
      discoverPasses (some names₁) = discoverPasses (some names₂) ∧
      ((∃ e, discoverPasses (some names₁) = .error e) ↔
        ∃ name ∈ names₁.map lower, ∀ p ∈ Pass.builtin, p.name ≠ name) ∧
      (∀ ps, discoverPasses (some names₁) = .ok ps →
        ps.Nodup ∧ (∀ p, p ∈ ps ↔ p ∈ Pass.builtin ∧ p.name ∈ names₁.map lower) ∧
        ∃ c, ofEnabled (some names₁) = .ok c ∧ ofEnabled (some names₂) = .ok c ∧ c.passes.Perm ps)) := by
  constructor
  · intro ps qs h
    refine ⟨ofPasses_eq_error_iff, ofPasses_eq_error_iff.trans (PassesClash.perm h).symm, ?_⟩
    intro hnone
    obtain ⟨c₁, c₂, hc₁, hc₂, hpasses⟩ := passes_eq_of_perm h hnone
    refine ⟨c₁, c₂, hc₁, hc₂, hpasses, ?_⟩
    intro d config s
    show c₁.compile d config s = c₂.compile d config s
    unfold compile
    rw [hpasses]
  · intro names₁ names₂ h
    have heq := discoverPasses_congr h
    refine ⟨heq, discoverPasses_eq_error_iff, ?_⟩
    intro ps hps
    obtain ⟨hnodup, hmem, hdiffer⟩ := chosen_of_discoverPasses hps
    refine ⟨hnodup, hmem, ⟨ps, hdiffer⟩, ?_, ?_, runningOrder_perm ps⟩
    · rw [ofEnabled, hps]
      exact ofPasses_eq_ok hdiffer
    · rw [ofEnabled, ← heq, hps]
      exact ofPasses_eq_ok hdiffer

/-- The passes that build trees, listed both ways round, and their names with one of them asked for twice. -/
theorem Compiler.order_irrelevant_trees :
    let ps := [Pass.packageTree, Pass.namespaceTree]
    let qs := [Pass.namespaceTree, Pass.packageTree]
    let names₁ := ["Package-Tree", "namespace-tree", "PACKAGE-TREE"]
    let names₂ := ["NAMESPACE-TREE", "package-tree"]
    ps.Perm qs ∧ ¬ PassesClash ps ∧
      (∃ c₁ c₂, ofPasses ps = .ok c₁ ∧ ofPasses qs = .ok c₂ ∧ c₁.passes = c₂.passes ∧
        ∀ d config s, c₁.compile d config s = c₂.compile d config s) ∧
      (∀ name, name ∈ names₁.map lower ↔ name ∈ names₂.map lower) ∧
      discoverPasses (some names₁) = .ok qs ∧ discoverPasses (some names₂) = .ok qs ∧
      ∃ c, ofEnabled (some names₁) = .ok c ∧ ofEnabled (some names₂) = .ok c ∧ c.passes.Perm qs := by
  intro ps qs names₁ names₂
  have hperm : ps.Perm qs := List.Perm.swap _ _ _
  have hnone : ¬ PassesClash ps := pairwise_differ_iff.1 (by decide)
  have hnames₁ : names₁.map lower = ["package-tree", "namespace-tree", "package-tree"] := by decide
  have hnames₂ : names₂.map lower = ["namespace-tree", "package-tree"] := by decide
  have hnames : ∀ name, name ∈ names₁.map lower ↔ name ∈ names₂.map lower := by
    intro name
    rw [hnames₁, hnames₂]
    simp only [List.mem_cons, List.not_mem_nil, or_false]
    tauto
  have hchosen : discoverPasses (some names₁) = .ok qs := rfl
  obtain ⟨hlists, hsets⟩ := Compiler.order_irrelevant
  obtain ⟨heq, -, hmade⟩ := hsets names₁ names₂ hnames
  exact ⟨hperm, hnone, (hlists ps qs hperm).2.2 hnone, hnames, hchosen, heq ▸ hchosen,
    (hmade qs hchosen).2.2⟩

end Docset
