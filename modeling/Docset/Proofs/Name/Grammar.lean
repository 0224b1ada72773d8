/-
  The grammar of qualified names.

  A qualified name is the spelling of a PHRASE: the words along its path, and perhaps a member, which is a
  word that may have the sign of a variable before it and the brackets of a call after it.

      phrase  =  `\` [ word { `\` word } ] [ member ]
      member  =  `::` [ `$` ] word [ `()` ]

  **The theorem** (`QualifiedName.parse_iff_spelled`): the texts that are read as qualified names are the
  spellings of phrases, with or without one line feed behind, and all others are refused.

  1. The recogniser looks at each part between separators once.  Those parts are the words
     (`isIdentifier_iff`, `isRootedPath_iff`), for no word holds a separator, a colon or a bracket.
  2. The member is what begins at the first colon (`isMemberPart_iff`), so cutting there cuts a phrase into its
     two halves (`isBareQualified_iff`).
  3. The grammar is UNAMBIGUOUS (`Phrase.chars_injective`): a text is the spelling of one phrase at most.
  4. Seen as a regular expression it is two repetitions and three options in a row
     (`isBareQualified_iff_mem_pattern`).
-/
import Mathlib.Computability.Language
import Mathlib.Data.Set.List
import Docset.Proofs.Name.Parent

namespace Docset

open Docset.Text

open scoped Computability

/-! ## Words -/

/-- What a word starts with: a letter of ASCII, `_`, or a character from U+0080 to U+FFFF. -/
def StartsWord (c : Char) : Prop :=
  ('A' ≤ c ∧ c ≤ 'Z') ∨ ('a' ≤ c ∧ c ≤ 'z') ∨ c = '_' ∨ ('\u0080' ≤ c ∧ c ≤ '\uffff')

/-- What a word goes on with: the same, or a digit of ASCII. -/
def ContinuesWord (c : Char) : Prop := StartsWord c ∨ ('0' ≤ c ∧ c ≤ '9')

instance (c : Char) : Decidable (StartsWord c) := by
  unfold StartsWord
  infer_instance

instance (c : Char) : Decidable (ContinuesWord c) :=
  inferInstanceAs (Decidable (StartsWord c ∨ ('0' ≤ c ∧ c ≤ '9')))

/-- A single name. -/
structure Word where
  /-- The first character. -/
  first : Char
  /-- The others. -/
  rest : List Char
  /-- It starts as words do. -/
  starts : StartsWord first
  /-- It goes on as words do. -/
  continues : ∀ c ∈ rest, ContinuesWord c

/-- A letter of ASCII. -/
theorem isAlpha_iff {c : Char} : c.isAlpha = true ↔ ('A' ≤ c ∧ c ≤ 'Z') ∨ ('a' ≤ c ∧ c ≤ 'z') := by
  have hupper : c.isUpper = true ↔ 'A' ≤ c ∧ c ≤ 'Z' := decide_eq_true_iff
  have hlower : c.isLower = true ↔ 'a' ≤ c ∧ c ≤ 'z' := by
    show (decide ('a' ≤ c) && decide (c ≤ 'z')) = true ↔ _
    rw [Bool.and_eq_true, decide_eq_true_iff, decide_eq_true_iff]
  show (c.isUpper || c.isLower) = true ↔ _
  rw [Bool.or_eq_true, hupper, hlower]

theorem isNameStart_iff {c : Char} : isNameStart c = true ↔ StartsWord c := by
  simp only [isNameStart, StartsWord, Bool.or_eq_true, isAlpha_iff, Bool.and_eq_true,
    decide_eq_true_eq, beq_iff_eq, or_assoc]
  exact Iff.rfl

theorem isNamePart_iff {c : Char} : isNamePart c = true ↔ ContinuesWord c := by
  simp only [isNamePart, ContinuesWord, Char.isDigit, Bool.or_eq_true, isNameStart_iff,
    Bool.and_eq_true, decide_eq_true_eq, Char.le_def]

namespace Word

/-- The characters of a word. -/
def chars (w : Word) : List Char := w.first :: w.rest

theorem chars_injective : Function.Injective chars := by
  intro v w h
  cases v
  cases w
  cases h
  rfl

theorem continues_of_mem {w : Word} {c : Char} (h : c ∈ w.chars) : ContinuesWord c := by
  rcases List.mem_cons.1 h with rfl | h
  · exact Or.inl w.starts
  · exact w.continues c h

/-- What no word goes on with is in none. -/
theorem not_mem (w : Word) {c : Char} (hc : ¬ ContinuesWord c) : c ∉ w.chars :=
  fun h => hc (continues_of_mem h)

end Word

/-- The recogniser of words. -/
theorem isIdentifier_iff {s : List Char} : isIdentifier s = true ↔ ∃ w : Word, w.chars = s := by
  cases s with
  | nil =>
    constructor
    · intro h
      cases h
    · rintro ⟨w, h⟩
      cases h
  | cons c rest =>
    rw [isIdentifier, Bool.and_eq_true, List.all_eq_true, isNameStart_iff]
    simp only [isNamePart_iff]
    constructor
    · rintro ⟨hc, hrest⟩
      exact ⟨⟨c, rest, hc, hrest⟩, rfl⟩
    · rintro ⟨w, h⟩
      cases h
      exact ⟨w.starts, w.continues⟩

/-! ## Members -/

/-- What stands behind `::`. -/
structure Member where
  /-- Whether it is a variable, with `$` before the word. -/
  isVariable : Bool
  /-- Its word. -/
  word : Word
  /-- Whether it is called, with `()` after the word. -/
  isCall : Bool

namespace Member

/-- The sign of a variable. -/
def sign (m : Member) : List Char := if m.isVariable then ['$'] else []

/-- The brackets of a call. -/
def brackets (m : Member) : List Char := if m.isCall then ['(', ')'] else []

/-- The characters of a member, with the colons before it. -/
def chars (m : Member) : List Char := ':' :: ':' :: (m.sign ++ (m.word.chars ++ m.brackets))

end Member

/-! ### The brackets of a call -/

theorem dropCall_append (s : List Char) : Path.dropCall (s ++ ['(', ')']) = s := by
  have hcall : ['(', ')'].isSuffixOf (s ++ ['(', ')']) = true :=
    List.isSuffixOf_iff_suffix.2 (List.suffix_append _ _)
  rw [Path.dropCall, if_pos hcall]
  simp

/-- What does not end with a bracket is left alone. -/
theorem dropCall_of_getLast? {s : List Char} (h : s.getLast? ≠ some ')') : Path.dropCall s = s := by
  refine if_neg fun hcall => h ?_
  obtain ⟨before, rfl⟩ := List.isSuffixOf_iff_suffix.1 hcall
  simp

theorem dropCall_eq_or (s : List Char) :
    s = Path.dropCall s ∨ s = Path.dropCall s ++ ['(', ')'] := by
  by_cases h : ['(', ')'].isSuffixOf s = true
  · obtain ⟨before, rfl⟩ := List.isSuffixOf_iff_suffix.1 h
    right
    rw [dropCall_append]
  · left
    exact (if_neg h).symm

theorem dropCall_member (m : Member) : Path.dropCall (m.word.chars ++ m.brackets) = m.word.chars := by
  rw [Member.brackets]
  split
  · exact dropCall_append _
  · rw [List.append_nil]
    refine dropCall_of_getLast? fun h => ?_
    exact m.word.not_mem (by decide) (List.mem_of_getLast? h)

/-- A word between a sign and brackets is a member. -/
theorem exists_member {s : List Char} (isVariable : Bool) (h : isIdentifier (Path.dropCall s) = true) :
    ∃ m : Member, m.isVariable = isVariable ∧ m.word.chars ++ m.brackets = s := by
  obtain ⟨w, hw⟩ := isIdentifier_iff.1 h
  rcases dropCall_eq_or s with hs | hs
  · refine ⟨⟨isVariable, w, false⟩, rfl, ?_⟩
    rw [hs, ← hw]
    exact List.append_nil _
  · refine ⟨⟨isVariable, w, true⟩, rfl, ?_⟩
    rw [hs, ← hw]
    rfl

/-- The recogniser of members. -/
theorem isMemberPart_iff {s : List Char} :
    isMemberPart s = true ↔ s = [] ∨ ∃ m : Member, m.chars = s := by
  constructor
  · intro h
    unfold isMemberPart at h
    split at h
    · exact Or.inl rfl
    · obtain ⟨m, hvariable, hm⟩ := exists_member true h
      refine Or.inr ⟨m, ?_⟩
      rw [Member.chars, Member.sign, if_pos hvariable, hm]
      rfl
    · obtain ⟨m, hvariable, hm⟩ := exists_member false h
      refine Or.inr ⟨m, ?_⟩
      rw [Member.chars, Member.sign, hvariable, if_neg Bool.false_ne_true, hm]
      rfl
    · cases h
  · rintro (rfl | ⟨m, rfl⟩)
    · rfl
    · have hword : isIdentifier (Path.dropCall (m.word.chars ++ m.brackets)) = true := by
        rw [dropCall_member]
        exact isIdentifier_iff.2 ⟨m.word, rfl⟩
      rw [Member.chars, Member.sign]
      split
      · exact hword
      · -- The word does not start with the sign, so it is not mistaken for it.
        have hfirst : m.word.first ≠ '$' := by
          intro h
          exact m.word.not_mem (c := '$') (by decide) (h ▸ List.mem_cons_self)
        rw [List.nil_append, Word.chars, List.cons_append] at *
        rw [isMemberPart]
        · exact hword
        · intro member h
          exact hfirst (List.cons.inj h).1

/-! ## Phrases -/

/-- What a qualified name says. -/
structure Phrase where
  /-- The words along the path. -/
  path : List Word
  /-- The member, if there is one. -/
  member : Option Member

namespace Phrase

/-- The characters of the path. -/
def pathChars (p : Phrase) : List Char :=
  Path.separator :: join Path.separator (p.path.map Word.chars)

/-- The characters of the member. -/
def memberChars (p : Phrase) : List Char := (p.member.map Member.chars).getD []

/-- The characters of a phrase. -/
def chars (p : Phrase) : List Char := p.pathChars ++ p.memberChars

/-- A text spells a phrase, with or without one line feed behind. -/
def Spells (p : Phrase) (text : String) : Prop :=
  text.toList = p.chars ∨ text.toList = p.chars ++ ['\n']

end Phrase

theorem Phrase.mem_pathChars {p : Phrase} {c : Char} (h : c ∈ p.pathChars) :
    c = Path.separator ∨ ContinuesWord c := by
  rcases List.mem_cons.1 h with hc | h
  · exact Or.inl hc
  · rcases mem_join h with hc | ⟨name, hname, hc⟩
    · exact Or.inl hc
    · obtain ⟨w, -, rfl⟩ := List.mem_map.1 hname
      exact Or.inr (Word.continues_of_mem hc)

/-- Between separators stand the words. -/
theorem fields_join_words {words : List Word} (h : words ≠ []) :
    fields Path.separator (join Path.separator (words.map Word.chars)) = words.map Word.chars := by
  refine fields_join (by simpa using h) fun name hname => ?_
  obtain ⟨w, -, rfl⟩ := List.mem_map.1 hname
  exact w.not_mem (by decide)

/-- The recogniser of paths. -/
theorem isRootedPath_iff {s : List Char} : isRootedPath s = true ↔
    ∃ words : List Word, s = Path.separator :: join Path.separator (words.map Word.chars) := by
  constructor
  · intro h
    cases s with
    | nil => cases h
    | cons c rest =>
      rw [isRootedPath, Bool.and_eq_true, Bool.or_eq_true, List.isEmpty_iff, List.all_eq_true] at h
      obtain ⟨hc, hrest⟩ := h
      rw [eq_of_beq hc]
      rcases hrest with rfl | hfields
      · exact ⟨[], rfl⟩
      · have hwords : fields Path.separator rest ∈ Set.range (List.map Word.chars) := by
          rw [Set.range_list_map]
          exact fun field hfield => isIdentifier_iff.1 (hfields field hfield)
        obtain ⟨words, hwords⟩ := hwords
        exact ⟨words, by rw [hwords, join_fields]⟩
  · rintro ⟨words, rfl⟩
    rw [isRootedPath, beq_self_eq_true, Bool.true_and]
    cases words with
    | nil => rfl
    | cons w rest =>
      rw [fields_join_words (List.cons_ne_nil _ _), Bool.or_eq_true, List.all_eq_true]
      right
      intro field hfield
      obtain ⟨x, -, rfl⟩ := List.mem_map.1 hfield
      exact isIdentifier_iff.2 ⟨x, rfl⟩

/-! ### The two halves -/

theorem Phrase.ne_colon {p : Phrase} {c : Char} (h : c ∈ p.pathChars) : (c != ':') = true := by
  rw [bne_iff_ne]
  rintro rfl
  exact absurd (Phrase.mem_pathChars h) (by decide)

/-- The path of a phrase goes up to the first colon. -/
theorem Phrase.takeWhile_chars (p : Phrase) : p.chars.takeWhile (· != ':') = p.pathChars := by
  rw [Phrase.chars, List.takeWhile_append_of_pos fun c hc => Phrase.ne_colon hc, Phrase.memberChars]
  cases p.member with
  | none => exact List.append_nil _
  | some m => exact List.append_nil _

/-- The member of a phrase begins with the first colon. -/
theorem Phrase.dropWhile_chars (p : Phrase) : p.chars.dropWhile (· != ':') = p.memberChars := by
  rw [Phrase.chars, List.dropWhile_append_of_pos fun c hc => Phrase.ne_colon hc, Phrase.memberChars]
  cases p.member with
  | none => rfl
  | some m => rfl

/-- **The recogniser without line feeds**: it accepts the spellings of phrases. -/
theorem isBareQualified_iff {s : List Char} : isBareQualified s = true ↔ ∃ p : Phrase, s = p.chars := by
  constructor
  · intro h
    rw [isBareQualified, Bool.and_eq_true, isRootedPath_iff, isMemberPart_iff] at h
    obtain ⟨⟨words, hpath⟩, hmember⟩ := h
    rw [← List.takeWhile_append_dropWhile (p := (· != ':')) (l := s), hpath]
    rcases hmember with hnone | ⟨m, hm⟩
    · exact ⟨⟨words, none⟩, by rw [hnone]; rfl⟩
    · exact ⟨⟨words, some m⟩, by rw [← hm]; rfl⟩
  · rintro ⟨p, rfl⟩
    rw [isBareQualified, p.takeWhile_chars, p.dropWhile_chars, Bool.and_eq_true]
    refine ⟨isRootedPath_iff.2 ⟨p.path, rfl⟩, isMemberPart_iff.2 ?_⟩
    rw [Phrase.memberChars]
    cases p.member with
    | none => exact Or.inl rfl
    | some m => exact Or.inr ⟨m, rfl⟩

/-- The recogniser accepts a text exactly if it spells a phrase. -/
theorem isQualified_iff {text : String} : isQualified text = true ↔ ∃ p : Phrase, p.Spells text := by
  rw [isQualified]
  simp only [Bool.or_eq_true, Bool.and_eq_true, isBareQualified_iff, beq_iff_eq]
  constructor
  · rintro (⟨p, hp⟩ | ⟨hlast, p, hp⟩)
    · exact ⟨p, Or.inl hp⟩
    · obtain ⟨before, hbefore⟩ := List.getLast?_eq_some_iff.1 hlast
      rw [hbefore, List.dropLast_concat] at hp
      exact ⟨p, Or.inr (hp ▸ hbefore)⟩
  · rintro ⟨p, hp | hp⟩
    · exact Or.inl ⟨p, hp⟩
    · right
      rw [hp, List.getLast?_concat, List.dropLast_concat]
      exact ⟨rfl, p, rfl⟩

/-! ## One phrase for one text -/

theorem Member.chars_injective : Function.Injective Member.chars := by
  rintro m n h
  have htail : m.sign ++ (m.word.chars ++ m.brackets) = n.sign ++ (n.word.chars ++ n.brackets) :=
    (List.cons.inj (List.cons.inj h).2).2
  have hfirst : ∀ w : Word, w.first ≠ '$' := fun w heq =>
    w.not_mem (c := '$') (by decide) (heq ▸ List.mem_cons_self)
  -- The sign is seen at the first character.
  have hvariable : m.isVariable = n.isVariable ∧
      m.word.chars ++ m.brackets = n.word.chars ++ n.brackets := by
    rw [Member.sign, Member.sign] at htail
    cases hm : m.isVariable <;> cases hn : n.isVariable <;> simp only [hm, hn] at htail
    · exact ⟨rfl, htail⟩
    · exact absurd (List.cons.inj htail).1 (hfirst m.word)
    · exact absurd (List.cons.inj htail).1.symm (hfirst n.word)
    · exact ⟨rfl, (List.cons.inj htail).2⟩
  obtain ⟨hvariable, hrest⟩ := hvariable
  have hword : m.word = n.word := by
    have hdrop := congrArg Path.dropCall hrest
    rw [dropCall_member, dropCall_member] at hdrop
    exact Word.chars_injective hdrop
  rw [hword] at hrest
  have hbrackets : m.isCall = n.isCall := by
    have hsame := List.append_cancel_left hrest
    rw [Member.brackets, Member.brackets] at hsame
    cases hm : m.isCall <;> cases hn : n.isCall <;> simp_all
  cases m
  cases n
  simp only at hvariable hword hbrackets
  rw [hvariable, hword, hbrackets]

/-- **No text is the spelling of two phrases.** -/
theorem Phrase.chars_injective : Function.Injective Phrase.chars := by
  intro p r h
  have hpath : p.pathChars = r.pathChars := by
    rw [← p.takeWhile_chars, ← r.takeWhile_chars, h]
  have hmember : p.memberChars = r.memberChars := by
    rw [← p.dropWhile_chars, ← r.dropWhile_chars, h]
  have hwords : p.path = r.path := by
    have hjoin := (List.cons.inj hpath).2
    have hempty : ∀ words : List Word, join Path.separator (words.map Word.chars) = [] → words = [] := by
      intro words hnil
      by_contra hne
      have hfields := fields_join_words hne
      rw [hnil] at hfields
      cases words with
      | nil => exact hne rfl
      | cons w rest => cases (List.cons.inj hfields).1
    by_cases hp : p.path = []
    · rw [hp] at hjoin
      rw [hp, hempty _ hjoin.symm]
    · have hr : r.path ≠ [] := by
        intro hr
        rw [hr] at hjoin
        exact hp (hempty _ hjoin)
      have hfields := congrArg (fields Path.separator) hjoin
      rw [fields_join_words hp, fields_join_words hr] at hfields
      exact Word.chars_injective.list_map hfields
  rw [Phrase.memberChars, Phrase.memberChars] at hmember
  cases p with
  | mk words m =>
    cases r with
    | mk words' m' =>
      cases m <;> cases m' <;> cases hwords
      · rfl
      · cases hmember
      · cases hmember
      · rw [Member.chars_injective hmember]

/-! ## The regular expression -/

/-- One character of a class. -/
def oneOf (p : Char → Prop) : Language Char := {s | ∃ c, p c ∧ s = [c]}

/-- `word`, as a regular expression. -/
def wordPattern : Language Char := oneOf StartsWord * (oneOf ContinuesWord)∗

/-- `\(?:word(?:\word)*)?`. -/
def pathPattern : Language Char :=
  {[Path.separator]} * (1 + wordPattern * ({[Path.separator]} * wordPattern)∗)

/-- `(?:::\$?word(?:\(\))?)?`. -/
def memberPattern : Language Char :=
  1 + {[':', ':']} * ((1 + {['$']}) * (wordPattern * (1 + {['(', ')']})))

/-- Qualified names, as a regular expression. -/
def namePattern : Language Char := pathPattern * memberPattern

theorem mem_singleton_language {s t : List Char} : s ∈ ({t} : Language Char) ↔ s = t := Iff.rfl

theorem mem_kstar_oneOf {p : Char → Prop} {s : List Char} : s ∈ (oneOf p)∗ ↔ ∀ c ∈ s, p c := by
  rw [Language.mem_kstar]
  constructor
  · rintro ⟨parts, rfl, hparts⟩ c hc
    obtain ⟨part, hpart, hc⟩ := List.mem_flatten.1 hc
    obtain ⟨x, hx, rfl⟩ := hparts part hpart
    rw [List.mem_singleton.1 hc]
    exact hx
  · intro h
    refine ⟨s.map fun c => [c], (List.flatMap_singleton' s).symm, fun part hpart => ?_⟩
    obtain ⟨c, hc, rfl⟩ := List.mem_map.1 hpart
    exact ⟨c, h c hc, rfl⟩

theorem mem_wordPattern {s : List Char} : s ∈ wordPattern ↔ ∃ w : Word, w.chars = s := by
  rw [wordPattern, Language.mem_mul]
  constructor
  · rintro ⟨a, ⟨c, hc, rfl⟩, rest, hrest, rfl⟩
    exact ⟨⟨c, rest, hc, mem_kstar_oneOf.1 hrest⟩, rfl⟩
  · rintro ⟨w, rfl⟩
    exact ⟨[w.first], ⟨_, w.starts, rfl⟩, w.rest, mem_kstar_oneOf.2 w.continues, rfl⟩

/-- A repetition of words with separators before them. -/
theorem mem_kstar_wordPattern {s : List Char} :
    s ∈ ({[Path.separator]} * wordPattern)∗ ↔
      ∃ words : List Word, s = (words.map Word.chars).flatMap (Path.separator :: ·) := by
  rw [Language.mem_kstar]
  constructor
  · rintro ⟨parts, rfl, hparts⟩
    induction parts with
    | nil => exact ⟨[], rfl⟩
    | cons part rest ih =>
      obtain ⟨words, hwords⟩ := ih fun x hx => hparts x (List.mem_cons_of_mem _ hx)
      obtain ⟨a, ha, b, hb, hpart⟩ := Language.mem_mul.1 (hparts part List.mem_cons_self)
      obtain ⟨w, rfl⟩ := mem_wordPattern.1 hb
      rw [mem_singleton_language.1 ha] at hpart
      refine ⟨w :: words, ?_⟩
      rw [List.flatten_cons, hwords, ← hpart, List.map_cons, List.flatMap_cons]
      rfl
  · rintro ⟨words, rfl⟩
    refine ⟨(words.map Word.chars).map (Path.separator :: ·), by rw [List.flatMap_def], ?_⟩
    intro part hpart
    obtain ⟨chars, hchars, rfl⟩ := List.mem_map.1 hpart
    obtain ⟨w, -, rfl⟩ := List.mem_map.1 hchars
    exact Language.mem_mul.2 ⟨_, rfl, _, mem_wordPattern.2 ⟨w, rfl⟩, rfl⟩

theorem mem_pathPattern {s : List Char} : s ∈ pathPattern ↔
    ∃ words : List Word, s = Path.separator :: join Path.separator (words.map Word.chars) := by
  rw [pathPattern, Language.mem_mul]
  constructor
  · rintro ⟨a, ha, b, hb, rfl⟩
    rw [mem_singleton_language.1 ha]
    rcases (Language.mem_add _ _ _).1 hb with hnone | hsome
    · rw [(Language.mem_one _).1 hnone]
      exact ⟨[], rfl⟩
    · obtain ⟨first, hfirst, more, hmore, rfl⟩ := Language.mem_mul.1 hsome
      obtain ⟨w, rfl⟩ := mem_wordPattern.1 hfirst
      obtain ⟨words, rfl⟩ := mem_kstar_wordPattern.1 hmore
      exact ⟨w :: words, by rw [List.map_cons, join_cons]; rfl⟩
  · rintro ⟨words, rfl⟩
    refine ⟨[Path.separator], rfl, _, ?_, rfl⟩
    cases words with
    | nil => exact (Language.mem_add _ _ _).2 (Or.inl rfl)
    | cons w words =>
      rw [List.map_cons, join_cons]
      exact (Language.mem_add _ _ _).2 (Or.inr (Language.mem_mul.2
        ⟨_, mem_wordPattern.2 ⟨w, rfl⟩, _, mem_kstar_wordPattern.2 ⟨words, rfl⟩, rfl⟩))

/-- One text or none. -/
theorem mem_one_add_singleton {s t : List Char} :
    s ∈ (1 + {t} : Language Char) ↔ ∃ b : Bool, s = if b then t else [] := by
  constructor
  · rintro (hnone | hsome)
    · exact ⟨false, hnone⟩
    · exact ⟨true, hsome⟩
  · rintro ⟨b, rfl⟩
    cases b with
    | false => exact Or.inl rfl
    | true => exact Or.inr rfl

theorem mem_memberPattern {s : List Char} :
    s ∈ memberPattern ↔ s = [] ∨ ∃ m : Member, m.chars = s := by
  rw [memberPattern, Language.mem_add, Language.mem_one]
  refine or_congr_right ?_
  constructor
  · intro h
    obtain ⟨colons, hcolons, behind, hbehind, rfl⟩ := Language.mem_mul.1 h
    obtain ⟨sign, hsign, rest, hrest, rfl⟩ := Language.mem_mul.1 hbehind
    obtain ⟨chars, hchars, brackets, hbrackets, rfl⟩ := Language.mem_mul.1 hrest
    obtain ⟨isVariable, rfl⟩ := mem_one_add_singleton.1 hsign
    obtain ⟨w, rfl⟩ := mem_wordPattern.1 hchars
    obtain ⟨isCall, rfl⟩ := mem_one_add_singleton.1 hbrackets
    rw [mem_singleton_language.1 hcolons]
    exact ⟨⟨isVariable, w, isCall⟩, rfl⟩
  · rintro ⟨m, rfl⟩
    refine Language.mem_mul.2 ⟨[':', ':'], rfl, _, Language.mem_mul.2 ?_, rfl⟩
    refine ⟨m.sign, mem_one_add_singleton.2 ⟨m.isVariable, rfl⟩, _, Language.mem_mul.2 ?_, rfl⟩
    exact ⟨m.word.chars, mem_wordPattern.2 ⟨m.word, rfl⟩, m.brackets,
      mem_one_add_singleton.2 ⟨m.isCall, rfl⟩, rfl⟩

/-- **The recogniser and the regular expression** accept the same texts. -/
theorem isBareQualified_iff_mem_pattern {s : List Char} :
    isBareQualified s = true ↔ s ∈ namePattern := by
  rw [isBareQualified_iff, namePattern, Language.mem_mul]
  constructor
  · rintro ⟨p, rfl⟩
    refine ⟨p.pathChars, mem_pathPattern.2 ⟨p.path, rfl⟩, p.memberChars, ?_, rfl⟩
    rw [mem_memberPattern, Phrase.memberChars]
    cases p.member with
    | none => exact Or.inl rfl
    | some m => exact Or.inr ⟨m, rfl⟩
  · rintro ⟨path, hpath, member, hmember, rfl⟩
    obtain ⟨words, rfl⟩ := mem_pathPattern.1 hpath
    rcases mem_memberPattern.1 hmember with rfl | ⟨m, rfl⟩
    · exact ⟨⟨words, none⟩, rfl⟩
    · exact ⟨⟨words, some m⟩, rfl⟩

/-! ## The theorem -/

/-- **The grammar of qualified names.**  A text is read as a qualified name exactly if it spells a phrase,
    with or without one line feed behind; and otherwise, and only then, it is refused as malformed. -/
theorem QualifiedName.parse_iff_spelled (text : String) :
    ((∃ q, parse text = .ok q ∧ q.text = text) ↔ ∃ p : Phrase, p.Spells text) ∧
      (parse text = .error (.malformed text) ↔ ¬ ∃ p : Phrase, p.Spells text) := by
  rw [← isQualified_iff]
  by_cases h : isQualified text = true
  · have hparse : parse text = .ok ⟨text, h⟩ := dif_pos h
    rw [hparse]
    refine ⟨⟨fun _ => h, fun _ => ⟨_, rfl, rfl⟩⟩, ?_, fun hbad => absurd h hbad⟩
    intro heq
    cases heq
  · have hparse : parse text = .error (.malformed text) := dif_neg h
    rw [hparse]
    refine ⟨⟨?_, fun hgood => absurd hgood h⟩, fun _ => h, fun _ => rfl⟩
    rintro ⟨q, heq, -⟩
    cases heq

end Docset
