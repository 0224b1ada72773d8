/-
  Trimming.

  Trimming takes a class of characters off both ends of a text, and what is left is TRIMMED: it neither
  starts nor ends with a character of the class (`isTrimmed_trimBy`).  Two facts say all about it.

  1. A text is what trimming leaves, between two runs of the class (`exists_trimBy`).
  2. Runs of the class at the ends do not matter (`trimBy_append_append`), and where there are none, nothing
     is trimmed (`trimBy_eq_self_iff`).

  Trimming by one class and then by another is another matter: characters of the first class that stood
  within the second come to the ends.  The result is trimmed of both classes exactly if the text had
  everything of the first class OUTSIDE of the second (`isTrimmed_trimBy_trimBy_iff`).
-/
import Docset.Text.Blank

namespace Docset

open Docset.Text

/-- Whether a text neither starts nor ends with a character of the class. -/
def IsTrimmed (p : Char → Bool) (s : List Char) : Prop :=
  (∀ c, s.head? = some c → p c = false) ∧ ∀ c, s.getLast? = some c → p c = false

section Trim

variable {p q : Char → Bool} {c : Char} {s : List Char}

/-! ## Runs at the ends -/

theorem trimBy_cons_of_pos (hc : p c = true) : trimBy p (c :: s) = trimBy p s := by
  rw [trimBy, List.dropWhile_cons_of_pos hc, trimBy]

theorem trimBy_concat_of_pos (hc : p c = true) : trimBy p (s ++ [c]) = trimBy p s := by
  have hend : ∀ t, trimEnd p (t ++ [c]) = trimEnd p t := by
    intro t
    rw [trimEnd, List.reverse_concat, List.dropWhile_cons_of_pos hc, trimEnd]
  rw [trimBy, trimBy, List.dropWhile_append]
  split
  · rename_i hall
    rw [List.isEmpty_iff] at hall
    rw [hall, List.dropWhile_cons_of_pos hc]
    rfl
  · exact hend _

/-- Runs of the class at the ends do not matter. -/
theorem trimBy_append_append {front back : List Char} (hfront : ∀ c ∈ front, p c = true)
    (hback : ∀ c ∈ back, p c = true) : trimBy p (front ++ s ++ back) = trimBy p s := by
  have hleft : ∀ t, trimBy p (front ++ t) = trimBy p t := by
    intro t
    induction front with
    | nil => rfl
    | cons c front ih =>
      rw [List.cons_append, trimBy_cons_of_pos (hfront c List.mem_cons_self)]
      exact ih fun x hx => hfront x (List.mem_cons_of_mem _ hx)
  have hright : ∀ t, trimBy p (t ++ back) = trimBy p t := by
    induction back with
    | nil =>
      intro t
      rw [List.append_nil]
    | cons c back ih =>
      intro t
      rw [List.append_cons, ih fun x hx => hback x (List.mem_cons_of_mem _ hx)]
      exact trimBy_concat_of_pos (hback c List.mem_cons_self)
  rw [hright, hleft]

/-- A text is what trimming leaves, between two runs of the class. -/
theorem exists_trimBy (p : Char → Bool) (s : List Char) :
    ∃ front back, s = front ++ trimBy p s ++ back ∧ (∀ c ∈ front, p c = true) ∧
      ∀ c ∈ back, p c = true := by
  refine ⟨s.takeWhile p, ((s.dropWhile p).reverse.takeWhile p).reverse, ?_, ?_, ?_⟩
  · have hend : trimBy p s ++ ((s.dropWhile p).reverse.takeWhile p).reverse = s.dropWhile p := by
      rw [trimBy, trimEnd, ← List.reverse_append, List.takeWhile_append_dropWhile,
        List.reverse_reverse]
    rw [List.append_assoc, hend, List.takeWhile_append_dropWhile]
  · exact fun c hc => List.all_eq_true.1 List.all_takeWhile c hc
  · intro c hc
    exact List.all_eq_true.1 List.all_takeWhile c (List.mem_reverse.1 hc)

/-! ## What is trimmed -/

/-- Trimming leaves no character of the class in front. -/
theorem head?_trimBy (h : (trimBy p s).head? = some c) : p c = false := by
  have hfront : trimBy p s <+: s.dropWhile p := by
    rw [trimBy, trimEnd, ← List.reverse_suffix, List.reverse_reverse]
    exact List.dropWhile_suffix p
  obtain ⟨rest, hrest⟩ := hfront
  have hhead : (s.dropWhile p).head? = some c := by
    rw [← hrest, List.head?_append, h]
    rfl
  have hnot := List.head?_dropWhile_not p s
  rw [hhead] at hnot
  exact hnot

theorem isTrimmed_trimBy (p : Char → Bool) (s : List Char) : IsTrimmed p (trimBy p s) := by
  refine ⟨fun c hc => head?_trimBy hc, fun c hc => ?_⟩
  rw [trimBy, trimEnd, List.getLast?_reverse] at hc
  have hnot := List.head?_dropWhile_not p (s.dropWhile p).reverse
  rw [hc] at hnot
  exact hnot

/-- Where neither end is of the class, nothing is trimmed. -/
theorem trimBy_eq_self (hhead : ∀ x, s.head? = some x → p x = false)
    (hlast : ∀ x, s.getLast? = some x → p x = false) : trimBy p s = s := by
  have hdrop : ∀ t : List Char, (∀ x, t.head? = some x → p x = false) → t.dropWhile p = t := by
    intro t ht
    cases t with
    | nil => rfl
    | cons x t => exact List.dropWhile_cons_of_neg (by simp [ht x rfl])
  rw [trimBy, hdrop s hhead, trimEnd, hdrop, List.reverse_reverse]
  intro x hx
  rw [List.head?_reverse] at hx
  exact hlast x hx

theorem trimBy_eq_self_iff : trimBy p s = s ↔ IsTrimmed p s := by
  constructor
  · intro h
    rw [← h]
    exact isTrimmed_trimBy p s
  · intro h
    exact trimBy_eq_self h.1 h.2

theorem trimBy_sublist (p : Char → Bool) (s : List Char) : (trimBy p s).Sublist s := by
  have hend : (trimEnd p (s.dropWhile p)).Sublist (s.dropWhile p) := by
    rw [trimEnd, ← List.reverse_sublist, List.reverse_reverse]
    exact List.dropWhile_sublist p
  exact hend.trans (List.dropWhile_sublist p)

/-! ## Two classes -/

theorem isTrimmed_or_iff : IsTrimmed (fun c => p c || q c) s ↔ IsTrimmed p s ∧ IsTrimmed q s := by
  simp only [IsTrimmed, Bool.or_eq_false_iff]
  constructor
  · intro h
    exact ⟨⟨fun c hc => (h.1 c hc).1, fun c hc => (h.2 c hc).1⟩,
      fun c hc => (h.1 c hc).2, fun c hc => (h.2 c hc).2⟩
  · rintro ⟨hp, hq⟩
    exact ⟨fun c hc => ⟨hp.1 c hc, hq.1 c hc⟩, fun c hc => ⟨hp.2 c hc, hq.2 c hc⟩⟩

/-- Who trims by a larger class need not have trimmed before. -/
theorem trimBy_trimBy_of_subset (h : ∀ c, p c = true → q c = true) :
    trimBy q (trimBy p s) = trimBy q s := by
  obtain ⟨front, back, hs, hfront, hback⟩ := exists_trimBy p s
  conv => rhs; rw [hs]
  exact (trimBy_append_append (fun c hc => h c (hfront c hc)) fun c hc => h c (hback c hc)).symm

/-- Two trims, one after the other, leave what trimming by both classes at once would leave, and perhaps
    more at its ends. -/
theorem trimBy_or_trimBy_trimBy (p q : Char → Bool) (s : List Char) :
    trimBy (fun c => p c || q c) (trimBy q (trimBy p s)) = trimBy (fun c => p c || q c) s := by
  rw [trimBy_trimBy_of_subset fun c hc => by simp [hc], trimBy_trimBy_of_subset fun c hc => by simp [hc]]

/-- The first trim is not undone by the second exactly if that leaves what trimming by both classes at once
    leaves. -/
theorem isTrimmed_trimBy_trimBy : IsTrimmed p (trimBy q (trimBy p s)) ↔
    trimBy q (trimBy p s) = trimBy (fun c => p c || q c) s := by
  rw [← trimBy_or_trimBy_trimBy p q s, eq_comm, trimBy_eq_self_iff, isTrimmed_or_iff]
  exact ⟨fun h => ⟨h, isTrimmed_trimBy q _⟩, fun h => h.1⟩

/-- **Trimming by two classes, one after the other**, leaves a text that is trimmed of both, exactly if
    everything of the first class at the ends stands outside of all that is of the second. -/
theorem isTrimmed_trimBy_trimBy_iff (hpq : ∀ c, q c = true → p c = false) :
    IsTrimmed p (trimBy q (trimBy p s)) ↔
      ∃ a b middle b' a', s = a ++ (b ++ middle ++ b') ++ a' ∧
        (∀ c ∈ a, p c = true) ∧ (∀ c ∈ b, q c = true) ∧ IsTrimmed (fun c => p c || q c) middle ∧
          (∀ c ∈ b', q c = true) ∧ ∀ c ∈ a', p c = true := by
  constructor
  · intro h
    obtain ⟨a, a', hs, ha, ha'⟩ := exists_trimBy p s
    obtain ⟨b, b', ht, hb, hb'⟩ := exists_trimBy q (trimBy p s)
    refine ⟨a, b, trimBy q (trimBy p s), b', a', ?_, ha, hb, ?_, hb', ha'⟩
    · rw [← ht]
      exact hs
    · exact isTrimmed_or_iff.2 ⟨h, isTrimmed_trimBy q _⟩
  · rintro ⟨a, b, middle, b', a', rfl, ha, hb, hmiddle, hb', ha'⟩
    obtain ⟨hmp, hmq⟩ := isTrimmed_or_iff.1 hmiddle
    -- With the outer runs gone, the ends are of the second class or those of the middle.
    have hinner : IsTrimmed p (b ++ middle ++ b') := by
      constructor
      · intro c hc
        rw [List.head?_append, List.head?_append, Option.or_eq_some_iff, Option.or_eq_some_iff] at hc
        rcases hc with (hc | ⟨-, hc⟩) | ⟨-, hc⟩
        · exact hpq c (hb c (List.mem_of_head? hc))
        · exact hmp.1 c hc
        · exact hpq c (hb' c (List.mem_of_head? hc))
      · intro c hc
        rw [List.getLast?_append, List.getLast?_append, Option.or_eq_some_iff,
          Option.or_eq_some_iff] at hc
        rcases hc with hc | ⟨-, hc | ⟨-, hc⟩⟩
        · exact hpq c (hb' c (List.mem_of_getLast? hc))
        · exact hmp.2 c hc
        · exact hpq c (hb c (List.mem_of_getLast? hc))
    rw [trimBy_append_append ha ha', trimBy_eq_self_iff.2 hinner, trimBy_append_append hb hb',
      trimBy_eq_self_iff.2 hmq]
    exact hmp

end Trim

example : trimBy (· == '\\') (trimBy isBlank "\\ A \\".toList) = " A ".toList := by decide

end Docset
