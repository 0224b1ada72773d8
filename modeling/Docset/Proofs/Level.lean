/-
  Levels that are known.

  A level is asked for as itself, or by a word, and only a word can be unknown: one that is none of
  `Level.names` when it is trimmed and in lower case (`Level.resolve_isOk_iff`).  That is the plain form of a
  word.  Whoever puts a word into it before asking gets the same answer
  (`Level.plainWord_plainWord_mem_iff`): a plain form is trimmed already and has no capitals, so it can only be
  a name's if it is that name.
-/
import Docset.Journal.Level
import Docset.Proofs.Text.LowerCase

namespace Docset

open Docset.Text

/-- The words that levels have. -/
def Level.names : List String := words.map Prod.fst

/-- Whether a level asked for is known. -/
def LevelChoice.IsKnown : LevelChoice → Prop
  | .level _ => True
  | .word text => Level.plainWord text ∈ Level.names

namespace Level

theorem ofWord?_isSome_iff {word : String} : (∃ l, ofWord? word = some l) ↔ word ∈ names := by
  have hfound : (∃ l, ofWord? word = some l) ↔ ∃ row ∈ words, row.1 = word := by
    rw [← Option.isSome_iff_exists, ofWord?, Option.isSome_map, List.find?_isSome]
    simp only [beq_iff_eq]
  rw [hfound, names, List.mem_map]

theorem resolve_word_of_mem {text : String} (h : plainWord text ∈ names) :
    ∃ l, resolve (.word text) = .ok l := by
  obtain ⟨l, hl⟩ := ofWord?_isSome_iff.2 h
  exact ⟨l, by rw [resolve, hl]⟩

/-- A word that is unknown is told back as it was given. -/
theorem resolve_word_of_not_mem {text : String} (h : plainWord text ∉ names) :
    resolve (.word text) = .error ⟨text⟩ := by
  rw [resolve]
  cases hl : ofWord? (plainWord text) with
  | none => rfl
  | some l => exact absurd (ofWord?_isSome_iff.1 ⟨l, hl⟩) h

/-- A level is found exactly if it is known. -/
theorem resolve_isOk_iff {choice : LevelChoice} : (∃ l, resolve choice = .ok l) ↔ choice.IsKnown := by
  cases choice with
  | level l => exact ⟨fun _ => trivial, fun _ => ⟨l, rfl⟩⟩
  | word text =>
    refine ⟨fun ⟨l, hl⟩ => ?_, resolve_word_of_mem⟩
    by_cases hknown : plainWord text ∈ names
    · exact hknown
    · rw [resolve_word_of_not_mem hknown] at hl
      cases hl

theorem resolve_of_not_isKnown {choice : LevelChoice} (h : ¬ choice.IsKnown) :
    ∃ e, resolve choice = .error e := by
  cases choice with
  | level l => exact absurd trivial h
  | word text => exact ⟨⟨text⟩, resolve_word_of_not_mem h⟩

/-! ## Words in plain form -/

theorem toList_plainWord (text : String) :
    (plainWord text).toList = lowerFrom [] (trimBy isBlank text.toList) := by
  rw [plainWord, lower, String.toList_ofList, trim, String.toList_ofList]

/-- The plain form of a word is trimmed, so trimming it again leaves it as it is. -/
theorem trimBy_plainWord (text : String) :
    trimBy isBlank (plainWord text).toList = (plainWord text).toList := by
  rw [toList_plainWord, trimBy_eq_self_iff]
  exact isTrimmed_lowerFrom (isTrimmed_trimBy _ _)

/-- A word in plain form that has the plain form of a name is that name. -/
theorem plainWord_eq_of_plainWord_plainWord {text name : String} (hname : name ∈ names)
    (h : plainWord (plainWord text) = name) : plainWord text = name := by
  have hplain : ∀ name ∈ names, name.toList.all isPlainLetter = true := by decide
  have hlower : lowerFrom [] (plainWord text).toList = name.toList := by
    rw [← h, toList_plainWord (plainWord text), trimBy_plainWord]
  refine String.toList_inj.1 (eq_of_lowerFrom_eq (fun c hc => ?_)
    (List.all_eq_true.1 (hplain name hname)) hlower)
  rw [toList_plainWord] at hc
  exact isUpper_of_mem_lowerFrom hc

/-- A word in plain form is known exactly if the word is. -/
theorem plainWord_plainWord_mem_iff {text : String} :
    plainWord (plainWord text) ∈ names ↔ plainWord text ∈ names := by
  constructor
  · intro h
    rw [plainWord_eq_of_plainWord_plainWord h rfl]
    exact h
  · intro h
    have hsame : ∀ name ∈ names, plainWord name = name := by decide
    rw [hsame _ h]
    exact h

end Level

end Docset
