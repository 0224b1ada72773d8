/-
  The names that qualified names answer to.

  The name is cut out of the text in its own way, by looking for the last `::` and else for the last
  separator; the grammar is not asked.

  **The theorem** (`QualifiedName.name_lastWord`): where no line feed stands behind, the two agree.  The name is
  the last word of the text, without the signs of a member, and it is empty for the root alone.  But a line
  feed behind, which is accepted, is taken into the name, and it keeps the brackets of a call from being
  dropped; so then the name is no word.

  1. No word holds a colon, so the last `::` is the one before the member (`afterScope_append`).
  2. No word holds a separator, so the last one stands before the last word (`splitLast_append`).
  3. What stands behind goes along with the name (`toList_localName_of_member`,
     `toList_localName_of_path`).
-/
import Docset.Proofs.Name.Grammar

namespace Docset

open Docset.Text

/-! ## The last place to cut -/

theorem afterScope_of_not_mem {s : List Char} (h : ':' ∉ s) : Path.afterScope s = none := by
  induction s with
  | nil => rfl
  | cons c rest ih =>
    rw [List.mem_cons, not_or] at h
    cases rest with
    | nil => rfl
    | cons d rest =>
      rw [Path.afterScope, ih h.2]
      exact if_neg fun hcolons => h.1 hcolons.1.symm

/-- What follows the last `::` is what has no colon in it. -/
theorem afterScope_append (front : List Char) {back : List Char} (h : ':' ∉ back) :
    Path.afterScope (front ++ ':' :: ':' :: back) = some back := by
  induction front with
  | nil =>
    have hnone : Path.afterScope (':' :: back) = none := by
      cases back with
      | nil => rfl
      | cons c rest =>
        rw [List.mem_cons, not_or] at h
        rw [Path.afterScope, afterScope_of_not_mem (List.not_mem_cons_of_ne_of_not_mem h.1 h.2)]
        exact if_neg fun hcolons => h.1 hcolons.2.symm
    show Path.afterScope (':' :: ':' :: back) = some back
    rw [Path.afterScope, hnone]
    exact if_pos ⟨rfl, rfl⟩
  | cons c front ih =>
    cases hrest : front ++ ':' :: ':' :: back with
    | nil => simp at hrest
    | cons d rest =>
      rw [hrest] at ih
      rw [List.cons_append, hrest, Path.afterScope, ih]

/-- What follows the last separator is what has no separator in it. -/
theorem splitLast_append {sep : Char} (before : List Char) {after : List Char} (h : sep ∉ after) :
    splitLast sep (before ++ sep :: after) = some (before, after) := by
  induction before with
  | nil =>
    show splitLast sep (sep :: after) = _
    rw [splitLast, splitLast_eq_none_iff.2 h]
    exact if_pos rfl
  | cons c before ih => rw [List.cons_append, splitLast, ih]

/-! ## The last word -/

namespace Phrase

/-- The last word of a phrase; none for the root. -/
def lastWord? (p : Phrase) : Option Word :=
  match p.member with
  | some m => some m.word
  | none => p.path.getLast?

/-- The characters of the last word. -/
def lastChars (p : Phrase) : List Char := (p.lastWord?.map Word.chars).getD []

/-- The brackets of a call, where the member is called. -/
def brackets (p : Phrase) : List Char := (p.member.map Member.brackets).getD []

section

variable {p : Phrase}

theorem chars_of_member {m : Member} (h : p.member = some m) : p.chars = p.pathChars ++ m.chars := by
  rw [chars, memberChars, h]
  rfl

theorem chars_of_path (h : p.member = none) : p.chars = p.pathChars := by
  rw [chars, memberChars, h]
  exact List.append_nil _

theorem lastChars_of_member {m : Member} (h : p.member = some m) : p.lastChars = m.word.chars := by
  rw [lastChars, lastWord?, h]
  rfl

theorem lastChars_of_path (h : p.member = none) {init : List Word} {w : Word}
    (hpath : p.path = init ++ [w]) : p.lastChars = w.chars := by
  rw [lastChars, lastWord?, h, hpath]
  show ((init ++ [w]).getLast?.map Word.chars).getD [] = w.chars
  rw [List.getLast?_concat]
  rfl

/-- The last word along a path stands behind a separator. -/
theorem pathChars_concat {init : List Word} {w : Word} (hpath : p.path = init ++ [w]) :
    p.pathChars = (init.map Word.chars).flatMap (Path.separator :: ·) ++ Path.separator :: w.chars := by
  rw [pathChars, hpath, ← flatMap_eq_join (by simp), List.map_append, List.flatMap_append,
    List.map_singleton, List.flatMap_singleton]

/-- Only the root has no last word. -/
theorem lastChars_eq_nil_iff : p.lastChars = [] ↔ p.chars = [Path.separator] := by
  cases hmember : p.member with
  | some m =>
    rw [lastChars_of_member hmember, chars_of_member hmember]
    constructor
    · intro h
      cases h
    · intro h
      have hcolon : ':' ∈ p.pathChars ++ m.chars := List.mem_append_right _ List.mem_cons_self
      rw [h] at hcolon
      exact absurd hcolon (by decide)
  | none =>
    rw [chars_of_path hmember]
    cases hpath : p.path using List.reverseRecOn with
    | nil =>
      rw [lastChars, lastWord?, pathChars, hmember, hpath]
      exact ⟨fun _ => rfl, fun _ => rfl⟩
    | append_singleton init w =>
      rw [lastChars_of_path hmember hpath, pathChars_concat hpath]
      constructor
      · intro h
        cases h
      · intro h
        have hlength := congrArg List.length h
        simp [Word.chars] at hlength
        omega

end

/-- No line feed is in a phrase. -/
theorem feed_not_mem (p : Phrase) : '\n' ∉ p.chars := by
  rw [chars, List.mem_append, not_or]
  constructor
  · intro h
    exact absurd (mem_pathChars h) (by decide)
  · rw [memberChars]
    cases p.member with
    | none => exact List.not_mem_nil
    | some m =>
      have hword := m.word.not_mem (c := '\n') (by decide)
      rw [Option.map_some, Option.getD_some, Member.chars, Member.sign, Member.brackets]
      cases m.isVariable <;> cases m.isCall <;> simp [hword]

/-- A text spells one phrase at most, with or without a line feed behind. -/
theorem Spells.unique {p r : Phrase} {text : String} (hp : p.Spells text) (hr : r.Spells text) :
    p = r := by
  have hmixed : ∀ {a b : Phrase}, a.chars = b.chars ++ ['\n'] → False := by
    intro a b h
    refine a.feed_not_mem ?_
    rw [h]
    exact List.mem_append_right _ List.mem_cons_self
  rcases hp with hp | hp
  · rcases hr with hr | hr
    · exact chars_injective (hp.symm.trans hr)
    · exact (hmixed (hp.symm.trans hr)).elim
  · rcases hr with hr | hr
    · exact (hmixed (hr.symm.trans hp)).elim
    · exact chars_injective (List.append_cancel_right (hp.symm.trans hr))

end Phrase

/-! ## The name -/

section Name

variable {p : Phrase} {text : String} {tail : List Char}

/-- The name of a member, with what stands behind. -/
theorem toList_localName_of_member {m : Member} (hmember : p.member = some m)
    (htext : text.toList = p.chars ++ tail) (hcolon : ':' ∉ tail) :
    (Path.localName text).toList = Path.dropCall (m.word.chars ++ (m.brackets ++ tail)) := by
  have hword := m.word.not_mem (c := ':') (by decide)
  have hback : ':' ∉ m.sign ++ (m.word.chars ++ (m.brackets ++ tail)) := by
    rw [Member.sign, Member.brackets]
    cases m.isVariable <;> cases m.isCall <;> simp [hword, hcolon]
  have hsplit : text.toList =
      p.pathChars ++ ':' :: ':' :: (m.sign ++ (m.word.chars ++ (m.brackets ++ tail))) := by
    rw [htext, Phrase.chars_of_member hmember, Member.chars]
    simp
  have hfirst : m.word.first ≠ '$' := by
    intro h
    exact m.word.not_mem (c := '$') (by decide) (h ▸ List.mem_cons_self)
  -- The sign goes, and the word does not start with another one.
  have hdrop : (m.sign ++ (m.word.chars ++ (m.brackets ++ tail))).dropWhile (· == '$') =
      m.word.chars ++ (m.brackets ++ tail) := by
    have hrest : (m.word.chars ++ (m.brackets ++ tail)).dropWhile (· == '$') =
        m.word.chars ++ (m.brackets ++ tail) :=
      List.dropWhile_cons_of_neg (by simpa using hfirst)
    rw [Member.sign]
    split
    · exact hrest
    · exact hrest
  rw [Path.localName, hsplit, afterScope_append _ hback]
  dsimp only
  rw [String.toList_ofList, hdrop]

/-- The name without a member, with what stands behind. -/
theorem toList_localName_of_path (hmember : p.member = none)
    (htext : text.toList = p.chars ++ tail) (hcolon : ':' ∉ tail) (hsep : Path.separator ∉ tail) :
    (Path.localName text).toList = p.lastChars ++ tail := by
  have hscope : Path.afterScope text.toList = none := by
    refine afterScope_of_not_mem fun h => ?_
    rw [htext, Phrase.chars_of_path hmember, List.mem_append] at h
    rcases h with h | h
    · exact absurd (Phrase.mem_pathChars h) (by decide)
    · exact hcolon h
  have hcut : ∃ before, splitLast Path.separator text.toList = some (before, p.lastChars ++ tail) := by
    rw [htext, Phrase.chars_of_path hmember]
    cases hpath : p.path using List.reverseRecOn with
    | nil =>
      rw [Phrase.lastChars, Phrase.lastWord?, Phrase.pathChars, hmember, hpath]
      exact ⟨[], splitLast_append [] hsep⟩
    | append_singleton init w =>
      have hlast : Path.separator ∉ w.chars ++ tail := by
        rw [List.mem_append, not_or]
        exact ⟨w.not_mem (by decide), hsep⟩
      rw [Phrase.pathChars_concat hpath, Phrase.lastChars_of_path hmember hpath, List.append_assoc,
        List.cons_append]
      exact ⟨_, splitLast_append _ hlast⟩
  obtain ⟨before, hcut⟩ := hcut
  rw [Path.localName, hscope, hcut]
  exact String.toList_ofList

/-- Where nothing stands behind, the name is the last word. -/
theorem toList_localName (htext : text.toList = p.chars) :
    (Path.localName text).toList = p.lastChars := by
  have htext : text.toList = p.chars ++ [] := by rw [htext, List.append_nil]
  cases hmember : p.member with
  | none => rw [toList_localName_of_path hmember htext (by simp) (by simp), List.append_nil]
  | some m =>
    rw [toList_localName_of_member hmember htext (by simp), List.append_nil, dropCall_member,
      Phrase.lastChars_of_member hmember]

/-- A line feed behind goes along with the name, and the brackets of a call with it. -/
theorem toList_localName_feed (htext : text.toList = p.chars ++ ['\n']) :
    (Path.localName text).toList = p.lastChars ++ (p.brackets ++ ['\n']) := by
  cases hmember : p.member with
  | none =>
    rw [toList_localName_of_path hmember htext (by decide) (by decide), Phrase.brackets, hmember]
    rfl
  | some m =>
    rw [toList_localName_of_member hmember htext (by decide), Phrase.lastChars_of_member hmember,
      Phrase.brackets, hmember]
    refine dropCall_of_getLast? ?_
    rw [← List.append_assoc, List.getLast?_concat]
    decide

end Name

/-! ## The theorem -/

/-- **The name of a qualified name.**  The text spells just one phrase.  If nothing stands behind it, then the
    name is the last word of the phrase, and it is empty exactly for the root.  If a line feed does, then the
    name has it too, after the brackets of a call if there are any, and it is neither empty nor a word. -/
theorem QualifiedName.name_lastWord (q : QualifiedName) :
    ∃ p : Phrase, (∀ other : Phrase, other.Spells q.text → other = p) ∧
      ((q.text.toList = p.chars ∧ q.name.toList = p.lastChars ∧
          (q.name = "" ↔ q.text = Path.root) ∧
          (q.text ≠ Path.root → ∃ w : Word, p.lastWord? = some w ∧ q.name.toList = w.chars)) ∨
        (q.text.toList = p.chars ++ ['\n'] ∧ q.name.toList = p.lastChars ++ (p.brackets ++ ['\n']) ∧
          q.name ≠ "" ∧ ∀ w : Word, q.name.toList ≠ w.chars)) := by
  obtain ⟨p, hp⟩ := isQualified_iff.1 q.wellFormed
  refine ⟨p, fun other hother => hother.unique hp, ?_⟩
  rcases hp with hp | hp
  · have hname : q.name.toList = p.lastChars := toList_localName hp
    have hempty : q.name = "" ↔ q.text = Path.root := by
      rw [← String.toList_eq_nil_iff, hname, Phrase.lastChars_eq_nil_iff, ← hp, ← String.toList_inj]
      rfl
    refine Or.inl ⟨hp, hname, hempty, fun hroot => ?_⟩
    cases hlast : p.lastWord? with
    | none =>
      rw [Phrase.lastChars, hlast] at hname
      exact absurd (hempty.1 (String.toList_eq_nil_iff.1 hname)) hroot
    | some w =>
      rw [Phrase.lastChars, hlast] at hname
      exact ⟨w, rfl, hname⟩
  · have hname : q.name.toList = p.lastChars ++ (p.brackets ++ ['\n']) := toList_localName_feed hp
    have hfeed : '\n' ∈ q.name.toList := by
      rw [hname]
      simp
    refine Or.inr ⟨hp, hname, ?_, ?_⟩
    · intro hempty
      rw [hempty] at hfeed
      cases hfeed
    · intro w hw
      rw [hw] at hfeed
      exact w.not_mem (by decide) hfeed

/-- With a line feed behind, a method of a class answers to its call and not to a word. -/
theorem QualifiedName.name_lastWord_called :
    let q : QualifiedName := ⟨"\\A::f()\n", by decide⟩
    q.name = "f()\n" ∧ ∀ w : Word, q.name.toList ≠ w.chars := by
  intro q
  refine ⟨by decide, ?_⟩
  obtain ⟨p, -, ⟨hp, -⟩ | ⟨-, -, -, hword⟩⟩ := q.name_lastWord
  · have hfeed : '\n' ∈ q.text.toList := by decide
    rw [hp] at hfeed
    exact absurd hfeed p.feed_not_mem
  · exact hword

end Docset
