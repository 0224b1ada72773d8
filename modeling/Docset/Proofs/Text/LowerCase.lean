/-
  Lower case.

  Words of settings are trimmed and written in lower case before they are looked up, some of them twice.  Two
  facts say that once is enough.

  1. Lower case keeps a text trimmed (`isTrimmed_lowerFrom`): no letter becomes white space.
  2. Among texts without capitals, only a plain word itself has that word as its lower case
     (`eq_of_lowerFrom_eq`).  A letter beyond ASCII becomes one beyond ASCII, with ONE exception: the Kelvin
     sign becomes `k`.  So a word is called plain here if it is made of small letters other than `k`.

  Both rest on the table of letters, which is looked through once (`lowerRuns_sound`).
-/
import Docset.Proofs.Text.Trimming
import Docset.Text.LowerCase

namespace Docset

open Docset.Text

/-! ## One character -/

/-- What the search finds is the distance of a run that holds the number. -/
theorem run_of_lowerShift {n lo hi : Nat} {shift : Int} (hhi : hi ≤ lowerRuns.size)
    (h : lowerShift n lo hi = some shift) :
    ∃ run ∈ lowerRuns.toList, run.1 ≤ n ∧ n ≤ run.2.1 ∧ run.2.2.2 = shift := by
  fun_induction lowerShift n lo hi with
  | case1 lo hi hlt mid first last step dist hrun hfirst ih => exact ih (by omega) h
  | case2 lo hi hlt mid first last step dist hrun hfirst hlast ih => exact ih hhi h
  | case3 lo hi hlt mid first last step dist hrun hfirst hlast hstep =>
    have hmid : mid < lowerRuns.size := by omega
    refine ⟨(first, last, step, dist), ?_, Nat.not_lt.1 hfirst, Nat.not_lt.1 hlast, Option.some.inj h⟩
    rw [← hrun, Array.getD_eq_getD_getElem?, Array.getElem?_eq_getElem hmid, Option.getD_some]
    exact Array.mem_toList_iff.2 (Array.getElem_mem hmid)
  | case4 => cases h
  | case5 => cases h

/-- No letter beyond ASCII has white space as its partner, and only the Kelvin sign has an ASCII letter. -/
theorem lowerRuns_sound : ∀ run ∈ lowerRuns.toList, ∀ i < run.2.1 + 1 - run.1, 0x80 ≤ run.1 + i →
    isBlank (Char.ofNat ((run.1 + i : Nat) + run.2.2.2).toNat) = false ∧
      (0x80 ≤ (Char.ofNat ((run.1 + i : Nat) + run.2.2.2).toNat).toNat ∨
        Char.ofNat ((run.1 + i : Nat) + run.2.2.2).toNat = 'k') := by
  decide +kernel

/-- A character beyond ASCII is its own partner, or has one that is no white space. -/
theorem lowerChar_beyond {c : Char} (hc : 0x80 ≤ c.toNat) : lowerChar c = c ∨
    isBlank (lowerChar c) = false ∧ (0x80 ≤ (lowerChar c).toNat ∨ lowerChar c = 'k') := by
  rw [lowerChar, if_neg (Nat.not_lt.2 hc)]
  cases hshift : lowerShift c.toNat 0 lowerRuns.size with
  | none => exact Or.inl rfl
  | some shift =>
    obtain ⟨run, hrun, hfirst, hlast, rfl⟩ := run_of_lowerShift (Nat.le_refl _) hshift
    have hsound := lowerRuns_sound run hrun (c.toNat - run.1) (by omega)
    rw [Nat.add_sub_of_le hfirst] at hsound
    exact Or.inr (hsound hc)

/-- What holds of the characters of ASCII, one by one, holds of all of them. -/
theorem forall_ascii {P : Char → Prop} (h : ∀ n < 0x80, P (Char.ofNat n)) {c : Char}
    (hc : c.toNat < 0x80) : P c := by
  have hp := h c.toNat hc
  rwa [Char.ofNat_toNat] at hp

theorem lowerChar_ascii {c : Char} (hc : c.toNat < 0x80) : lowerChar c = c.toLower := by
  rw [lowerChar, if_pos hc]

theorem isUpper_of_beyond {c : Char} (hc : 0x80 ≤ c.toNat) : c.isUpper = false := by
  refine decide_eq_false ?_
  rintro ⟨-, hle⟩
  exact Nat.not_le.2 (Nat.lt_of_lt_of_le (by decide) hc) (UInt32.le_iff_toNat_le.1 hle)

/-- No capital is left. -/
theorem isUpper_lowerChar (c : Char) : (lowerChar c).isUpper = false := by
  rcases Nat.lt_or_ge c.toNat 0x80 with hc | hc
  · rw [lowerChar_ascii hc]
    exact forall_ascii (P := fun c => c.toLower.isUpper = false) (by decide) hc
  · rcases lowerChar_beyond hc with h | ⟨-, h | h⟩
    · rw [h]
      exact isUpper_of_beyond hc
    · exact isUpper_of_beyond h
    · rw [h]
      rfl

/-- No white space comes in. -/
theorem isBlank_lowerChar {c : Char} (h : isBlank c = false) : isBlank (lowerChar c) = false := by
  rcases Nat.lt_or_ge c.toNat 0x80 with hc | hc
  · rw [lowerChar_ascii hc]
    exact forall_ascii (P := fun c => isBlank c = false → isBlank c.toLower = false) (by decide) hc h
  · rcases lowerChar_beyond hc with heq | ⟨hblank, -⟩
    · rw [heq]
      exact h
    · exact hblank

/-- Whether a character is a small letter of ASCII that is nobody's partner beyond ASCII. -/
def isPlainLetter (c : Char) : Bool := 'a' ≤ c && c ≤ 'z' && c != 'k'

theorem isPlainLetter_iff {c : Char} : isPlainLetter c = true ↔ 'a' ≤ c ∧ c ≤ 'z' ∧ c ≠ 'k' := by
  rw [isPlainLetter, Bool.and_eq_true, Bool.and_eq_true, decide_eq_true_eq, decide_eq_true_eq, bne_iff_ne,
    and_assoc]

/-- Of the characters that are no capitals, only a plain letter itself has it as its partner. -/
theorem eq_lowerChar {c : Char} (hc : c.isUpper = false) (h : isPlainLetter (lowerChar c) = true) :
    lowerChar c = c := by
  obtain ⟨-, hle, hne⟩ := isPlainLetter_iff.1 h
  rcases Nat.lt_or_ge c.toNat 0x80 with hascii | hbeyond
  · rw [lowerChar_ascii hascii]
    exact forall_ascii (P := fun c => c.isUpper = false → c.toLower = c) (by decide) hascii hc
  · rcases lowerChar_beyond hbeyond with heq | ⟨-, hfar | hk⟩
    · exact heq
    · have hnear : (lowerChar c).toNat < 0x80 :=
        Nat.lt_of_le_of_lt (UInt32.le_iff_toNat_le.1 hle) (by decide)
      exact absurd hnear (Nat.not_lt.2 hfar)
    · exact absurd hk hne

/-! ## Texts -/

/-- What one character of a text becomes, between what stands before it, nearest first, and the rest. -/
def lowerHere (before : List Char) (c : Char) (rest : List Char) : List Char :=
  if c.toNat = 0x130 then ['i', Char.ofNat 0x307]
  else if c.toNat = 0x3A3 then
    if meetsCased before && !meetsCased rest then [Char.ofNat 0x3C2] else [Char.ofNat 0x3C3]
  else [lowerChar c]

theorem lowerFrom_cons (before : List Char) (c : Char) (rest : List Char) :
    lowerFrom before (c :: rest) = lowerHere before c rest ++ lowerFrom (c :: before) rest :=
  rfl

/-- The pieces of text that stand for one character otherwise than as its partner. -/
def oddPieces : List (List Char) := [['i', Char.ofNat 0x307], [Char.ofNat 0x3C2], [Char.ofNat 0x3C3]]

theorem lowerHere_cases (before : List Char) (c : Char) (rest : List Char) :
    lowerHere before c rest ∈ oddPieces ∨ lowerHere before c rest = [lowerChar c] := by
  rw [lowerHere]
  split
  · exact Or.inl (by decide)
  · split
    · split
      · exact Or.inl (by decide)
      · exact Or.inl (by decide)
    · exact Or.inr rfl

theorem false_of_mem_oddPieces {p : Char → Bool} (h : oddPieces.flatten.any p = false) {piece : List Char}
    (hpiece : piece ∈ oddPieces) {x : Char} (hx : x ∈ piece) : p x = false :=
  Bool.eq_false_iff.2 (List.any_eq_false.1 h x (List.mem_flatten.2 ⟨piece, hpiece, hx⟩))

theorem lowerHere_ne_nil (before : List Char) (c : Char) (rest : List Char) :
    lowerHere before c rest ≠ [] := by
  have hodd : ∀ piece ∈ oddPieces, piece ≠ [] := by decide
  rcases lowerHere_cases before c rest with h | h
  · exact hodd _ h
  · rw [h]
    exact List.cons_ne_nil _ _

/-- A text in lower case has no capitals. -/
theorem isUpper_of_mem_lowerFrom {before s : List Char} {x : Char} (h : x ∈ lowerFrom before s) :
    x.isUpper = false := by
  induction s generalizing before with
  | nil => cases h
  | cons c rest ih =>
    rw [lowerFrom_cons, List.mem_append] at h
    rcases h with h | h
    · rcases lowerHere_cases before c rest with hpiece | hpiece
      · exact false_of_mem_oddPieces (by decide) hpiece h
      · rw [hpiece, List.mem_singleton] at h
        rw [h]
        exact isUpper_lowerChar c
    · exact ih h

theorem isBlank_of_mem_lowerHere {before rest : List Char} {c x : Char} (hc : isBlank c = false)
    (h : x ∈ lowerHere before c rest) : isBlank x = false := by
  rcases lowerHere_cases before c rest with hpiece | hpiece
  · exact false_of_mem_oddPieces (by decide) hpiece h
  · rw [hpiece, List.mem_singleton] at h
    rw [h]
    exact isBlank_lowerChar hc

/-- What a text starts with in lower case comes from what it starts with. -/
theorem isBlank_head?_lowerFrom {before s : List Char} (hs : ∀ c, s.head? = some c → isBlank c = false)
    {x : Char} (h : (lowerFrom before s).head? = some x) : isBlank x = false := by
  cases s with
  | nil => cases h
  | cons c rest =>
    obtain ⟨y, ys, hhere⟩ := List.exists_cons_of_ne_nil (lowerHere_ne_nil before c rest)
    rw [lowerFrom_cons, hhere, List.cons_append, List.head?_cons] at h
    obtain rfl := Option.some.inj h
    exact isBlank_of_mem_lowerHere (hs c rfl) (hhere ▸ List.mem_cons_self)

/-- What a text ends with in lower case comes from what it ends with. -/
theorem isBlank_getLast?_lowerFrom {before s : List Char}
    (hs : ∀ c, s.getLast? = some c → isBlank c = false) {x : Char}
    (h : (lowerFrom before s).getLast? = some x) : isBlank x = false := by
  induction s generalizing before with
  | nil => cases h
  | cons c rest ih =>
    rw [lowerFrom_cons, List.getLast?_append, Option.or_eq_some_iff] at h
    cases rest with
    | nil =>
      rcases h with h | ⟨-, h⟩
      · cases h
      · exact isBlank_of_mem_lowerHere (hs c rfl) (List.mem_of_getLast? h)
    | cons d rest =>
      rcases h with h | ⟨hnone, -⟩
      · exact ih hs h
      · rw [List.getLast?_eq_none_iff, lowerFrom_cons, List.append_eq_nil_iff] at hnone
        exact absurd hnone.1 (lowerHere_ne_nil _ _ _)

/-- Lower case keeps a text trimmed. -/
theorem isTrimmed_lowerFrom {before s : List Char} (hs : IsTrimmed isBlank s) :
    IsTrimmed isBlank (lowerFrom before s) :=
  ⟨fun _ hx => isBlank_head?_lowerFrom hs.1 hx, fun _ hx => isBlank_getLast?_lowerFrom hs.2 hx⟩

/-- A text without capitals whose lower case is a plain word is that word. -/
theorem eq_of_lowerFrom_eq {before s word : List Char} (hs : ∀ c ∈ s, c.isUpper = false)
    (hword : ∀ c ∈ word, isPlainLetter c = true) (h : lowerFrom before s = word) : s = word := by
  have hodd : ∀ piece ∈ oddPieces, piece.all isPlainLetter = false := by decide
  induction s generalizing before word with
  | nil => exact h
  | cons c rest ih =>
    rw [lowerFrom_cons] at h
    subst h
    have hhere : ∀ x ∈ lowerHere before c rest, isPlainLetter x = true := fun x hx =>
      hword x (List.mem_append_left _ hx)
    have hrest : rest = lowerFrom (c :: before) rest :=
      ih (fun x hx => hs x (List.mem_cons_of_mem _ hx)) (fun x hx => hword x (List.mem_append_right _ hx)) rfl
    rcases lowerHere_cases before c rest with hpiece | hpiece
    · have hnot := hodd _ hpiece
      rw [List.all_eq_true.2 hhere] at hnot
      cases hnot
    · rw [hpiece] at hhere
      rw [hpiece, eq_lowerChar (hs c List.mem_cons_self) (hhere _ List.mem_cons_self)]
      exact congrArg (c :: ·) hrest

end Docset
