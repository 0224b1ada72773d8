/-
  Files that stay open.

  A log file is opened once and written to as long as its journal uses it, so what has to be known is that it
  STAYS where it was found.

  1. A location without steps up leads to the place of its own names, if anywhere (`walk_eq_append`), and
     `Location.normal` has none (`dotdot_not_mem_normal`).
  2. The way to a place goes through directories alone, so whatever keeps the directories keeps the way
     (`locate_of_directories`), as any item does that is put where no directory is (`locate_put`).
  3. Hence a file that was opened is held (`HoldsFile.of_openFile`), a text written to it comes at its end and
     touches no other place (`item?_append`), and it is held as before (`HoldsFile.append`).
-/
import Docset.Disk

namespace Docset

/-! ## Locations without steps up -/

theorem Location.dotdot_not_mem_step {here : List String} (h : ".." ∉ here) (name : String) :
    ".." ∉ step here name := by
  rw [step]
  split
  · exact fun hmem => h (List.dropLast_subset here hmem)
  · rename_i hname
    rw [List.mem_append, List.mem_singleton, not_or]
    exact ⟨h, Ne.symm hname⟩

/-- A normal location has no steps up. -/
theorem Location.dotdot_not_mem_normal (l : Location) : ".." ∉ l.normal.names := by
  have hfold : ∀ names here : List String, ".." ∉ here → ".." ∉ names.foldl step here := by
    intro names
    induction names with
    | nil => exact fun here h => h
    | cons name names ih => exact fun here h => ih _ (dotdot_not_mem_step h name)
  exact hfold l.names [] List.not_mem_nil

namespace Disk

variable {d d' : Disk} {l : Location} {place : List String}

/-- Without steps up, names lead down to themselves. -/
theorem walk_eq_append {here names : List String} (hnames : ".." ∉ names)
    (h : d.walk here names = .ok place) : place = here ++ names := by
  induction names generalizing here with
  | nil =>
    rw [List.append_nil]
    exact (Except.ok.inj h).symm
  | cons name names ih =>
    rw [List.mem_cons, not_or] at hnames
    rw [walk] at h
    split at h
    · cases h
    · cases h
    · split at h
      · cases h
      · rw [Location.step, if_neg (Ne.symm hnames.1)] at h
        rw [ih hnames.2 h, List.append_assoc, List.singleton_append]

/-- The way to a place goes through directories, so it stays where they stay. -/
theorem walk_of_directories {here names : List String}
    (hkept : ∀ p, d.item? p = some .directory → d'.item? p = some .directory)
    (h : d.walk here names = .ok place) : d'.walk here names = .ok place := by
  induction names generalizing here with
  | nil => exact h
  | cons name names ih =>
    rw [walk] at h
    split at h
    · cases h
    · cases h
    · rename_i hhere
      split at h
      · cases h
      · rename_i hshort
        rw [walk, hkept here hhere]
        simp only [if_neg hshort]
        exact ih h

theorem locate_of_directories (hkept : ∀ p, d.item? p = some .directory → d'.item? p = some .directory)
    (h : d.locate l = .ok place) : d'.locate l = .ok place := by
  rw [locate] at h ⊢
  split at h
  · cases h
  · split at h
    · cases h
    · rename_i hnull hshort
      rw [if_neg hnull, if_neg hshort]
      exact walk_of_directories hkept h

theorem names_of_locate (hl : ".." ∉ l.names) (h : d.locate l = .ok place) : place = l.names := by
  rw [locate] at h
  split at h
  · cases h
  · split at h
    · cases h
    · exact walk_eq_append hl h

/-! ## Putting an item where no directory is -/

theorem item?_put (h : d.item? place ≠ some .directory) (item : Item) (p : List String) :
    Disk.item? ⟨d.items.put place item⟩ p = if place = p then some item else d.item? p := by
  have hplace : place ≠ [] := by
    rintro rfl
    exact h rfl
  rw [Disk.item?, Disk.item?, Ledger.get?_put]
  by_cases hp : p = []
  · subst hp
    rw [if_pos rfl, if_neg hplace]
    rfl
  · rw [if_neg hp, if_neg hp]

theorem item?_put_self (h : d.item? place ≠ some .directory) (item : Item) :
    Disk.item? ⟨d.items.put place item⟩ place = some item := by
  rw [item?_put h, if_pos rfl]

/-- What is put where no directory is does not lead any location astray. -/
theorem locate_put (h : d.item? place ≠ some .directory) (item : Item) {there : List String}
    (hl : d.locate l = .ok there) : Disk.locate ⟨d.items.put place item⟩ l = .ok there := by
  refine locate_of_directories (fun p hp => ?_) hl
  rw [item?_put h, if_neg]
  · exact hp
  · rintro rfl
    exact h hp

/-! ## Files that are held -/

/-- Whether a location leads to a file that stands where its names say. -/
def HoldsFile (d : Disk) (l : Location) : Prop :=
  d.locate l = .ok l.names ∧ ∃ content, d.item? l.names = some (.file content)

/-- What was opened is held. -/
theorem HoldsFile.of_openFile (hl : ".." ∉ l.names) (h : d.openFile l = .ok d') : d'.HoldsFile l := by
  cases hplace : d.locate l with
  | error e =>
    rw [openFile, hplace] at h
    cases h
  | ok place =>
    obtain rfl := names_of_locate hl hplace
    cases hitem : d.item? l.names with
    | none =>
      have hfree : d.item? l.names ≠ some .directory := by
        rw [hitem]
        exact nofun
      have hd' : (⟨d.items.put l.names (.file .empty)⟩ : Disk) = d' := by
        simp only [openFile, hplace, hitem, bind, Except.bind] at h
        exact Except.ok.inj h
      rw [← hd']
      exact ⟨locate_put hfree _ hplace, .empty, item?_put_self hfree _⟩
    | some item =>
      cases item with
      | directory =>
        simp only [openFile, hplace, hitem, bind, Except.bind] at h
        cases h
      | file content =>
        simp only [openFile, hplace, hitem, bind, Except.bind] at h
        rw [← Except.ok.inj h]
        exact ⟨hplace, content, hitem⟩

/-! ## Writing -/

/-- A text that is written to a file that is held comes at its end, and nothing else changes. -/
theorem HoldsFile.item?_append (h : d.HoldsFile l) (text : String) :
    (∃ content, d.item? l.names = some (.file content) ∧
      (d.append l text).item? l.names = some (.file (content ++ text.toUTF8))) ∧
    ∀ p, p ≠ l.names → (d.append l text).item? p = d.item? p := by
  obtain ⟨hplace, content, hitem⟩ := h
  have hfile : d.item? l.names ≠ some .directory := by
    rw [hitem]
    exact nofun
  have happend : d.append l text = ⟨d.items.put l.names (.file (content ++ text.toUTF8))⟩ := by
    rw [append, hplace]
    simp only [hitem]
  rw [happend]
  refine ⟨⟨content, hitem, item?_put_self hfile _⟩, fun p hp => ?_⟩
  rw [item?_put hfile, if_neg (Ne.symm hp)]

/-- Writing replaces a file by another one, if anything. -/
theorem append_cases (d : Disk) (l : Location) (text : String) : d.append l text = d ∨
    ∃ place content, d.item? place ≠ some .directory ∧
      d.append l text = ⟨d.items.put place (.file content)⟩ := by
  rw [append]
  split
  · rename_i place hplace
    split
    · rename_i content hitem
      refine Or.inr ⟨place, content ++ text.toUTF8, ?_, rfl⟩
      rw [hitem]
      exact nofun
    · exact Or.inl rfl
  · exact Or.inl rfl

/-- A file that is held is held whatever is written. -/
theorem HoldsFile.append (h : d.HoldsFile l) (l' : Location) (text : String) :
    (d.append l' text).HoldsFile l := by
  rcases append_cases d l' text with heq | ⟨place, content', hfile, heq⟩
  · rw [heq]
    exact h
  · obtain ⟨hplace, content, hitem⟩ := h
    rw [heq]
    refine ⟨locate_put hfile _ hplace, ?_⟩
    rw [item?_put hfile]
    split
    · exact ⟨content', rfl⟩
    · exact ⟨content, hitem⟩

end Disk

end Docset
