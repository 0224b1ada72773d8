/-
  Reading a configuration.

  A document may say anything under any word.  Reading it goes section by section, and this file tells when it
  fails and what it yields.  Which document a text is, its reader says.

  1. The values that have to be written are parts of the document (`written_isWritable`), so a document
     whose whole numbers are short enough never fails on one.
  2. THE LEVEL IS THE ONLY ENTRY THAT CAN BE REFUSED (`levelOf_of_refused`, `levelOf_of_not_refused`).  Its
     word is put into plain form, and then once more where it is looked up, which changes nothing
     (`Level.plainWord_plainWord_mem_iff`).
  3. Hence three cases: a document that is no table (`ofDocument_of_not_table`), one whose level is refused
     (`ofDocument_of_refused`), and any other, which is read (`ofDocument_of_table`), unless no disk takes
     the name of its log file.
  4. What is read is read off the sections, each part off its own (`ReadOff`), and the names of passes are the
     texts of the usable items (`asNames_eq`).
  5. Where a document is found (`Found`), loading is reading it (`load_of_found`).

  `load_outcome` puts them together.
-/
import Mathlib.Data.List.Basic
import Docset.Config.Load
import Docset.Proofs.Level

namespace Docset

open Docset.Text

/-! ## Values that can be written -/

namespace Value

theorem isWritable_of_mem_items {items : List Value} {v : Value} (h : areItemsWritable items = true)
    (hv : v ∈ items) : v.isWritable = true := by
  induction items with
  | nil => cases hv
  | cons w items ih =>
    rw [areItemsWritable, Bool.and_eq_true] at h
    rcases List.mem_cons.1 hv with rfl | hv
    · exact h.1
    · exact ih h.2 hv

theorem isWritable_of_mem_rows {rows : List (Value × Value)} {row : Value × Value}
    (h : areRowsWritable rows = true) (hrow : row ∈ rows) : row.2.isWritable = true := by
  induction rows with
  | nil => cases hrow
  | cons first rows ih =>
    rw [areRowsWritable, Bool.and_eq_true, Bool.and_eq_true] at h
    rcases List.mem_cons.1 hrow with rfl | hrow
    · exact h.1.2
    · exact ih h.2 hrow

/-- The number of a byte has three digits at most. -/
theorem isWritable_byte (b : UInt8) : isWritable (.whole b.toNat) = true := by
  have hshort : ∀ digits, 3 ≤ digits → b.toNat < Nat.pow 10 digits := fun digits h =>
    calc b.toNat < 10 ^ 3 := Nat.lt_trans b.toNat_lt (by decide)
      _ ≤ 10 ^ digits := Nat.pow_le_pow_right (by decide) h
  rw [isWritable, Docset.isWritable, Int.natAbs_natCast]
  exact decide_eq_true (hshort maxDigits (by decide))

/-- Whether a value is a table. -/
def IsTable (v : Value) : Prop := ∃ rows, v = .table rows

/-- Whether a value is a text, a number or a truth value. -/
def isScalar : Value → Bool
  | text _ => true
  | whole _ => true
  | real _ => true
  | flag _ => true
  | _ => false

end Value

namespace Config

/-! ## Entries -/

theorem isTable_of_entry_ne_null {v : Value} {word : String} (h : entry v word ≠ .null) : v.IsTable := by
  cases v with
  | table rows => exact ⟨rows, rfl⟩
  | _ => exact absurd rfl h

theorem isWritable_entry {v : Value} (h : v.isWritable = true) (word : String) :
    (entry v word).isWritable = true := by
  rw [entry, Value.field.eq_def]
  split
  · rename_i rows
    rw [Value.isWritable] at h
    cases hrow : rows.find? fun r => r.1.sameKey (.text word) with
    | none => rfl
    | some row => exact Value.isWritable_of_mem_rows h (List.mem_of_find?_eq_some hrow)
  · rfl

theorem isWritable_of_mem_itemsOf {v item : Value} (h : v.isWritable = true) (hitem : item ∈ itemsOf v) :
    item.isWritable = true := by
  cases v with
  | list items => exact Value.isWritable_of_mem_items h hitem
  | pair first second =>
    rw [Value.isWritable, Bool.and_eq_true] at h
    rcases List.mem_cons.1 hitem with rfl | hitem
    · exact h.1
    · obtain rfl := List.mem_singleton.1 hitem
      exact h.2
  | bytes content =>
    obtain ⟨b, -, rfl⟩ := List.mem_map.1 hitem
    exact Value.isWritable_byte b
  | _ => cases hitem

/-- Of a value that can be written, all can be written that has to be. -/
theorem written_isWritable {v : Value} (h : v.isWritable = true) :
    (written v).all Value.isWritable = true := by
  rw [written, List.all_cons, Bool.and_eq_true]
  refine ⟨isWritable_entry (isWritable_entry h _) _, List.all_eq_true.2 fun item hitem => ?_⟩
  have hpasses := isWritable_entry (isWritable_entry h "compiler") "passes"
  exact isWritable_of_mem_itemsOf hpasses (List.mem_filter.1 hitem).1

/-! ## The level -/

/-- Whether a document asks for a level that is not known. -/
def RefusesLevel (d : Value) : Prop :=
  (entry d "logging").IsTable ∧ entry (entry d "logging") "level" ≠ .null ∧
    lower (trim (entry (entry d "logging") "level").shown) ∉ ["debug", "info", "warning", "error"]

/-- The word for the level that a document asks for, in plain form. -/
def levelWord (d : Value) : String :=
  match entry (entry d "logging") "level" with
  | .null => "info"
  | v => lower (trim v.shown)

theorem asLevel_eq (v : Value) : asLevel v =
    (Level.resolve (.word (Level.plainWord v.shown))).map fun _ => Level.plainWord v.shown := by
  show (Level.resolve (.word (Level.plainWord v.shown)) >>= fun _ => pure (Level.plainWord v.shown)) = _
  generalize Level.plainWord v.shown = word
  cases Level.resolve (.word word) <;> rfl

theorem levelOf_eq_asLevel {logging : Value} (h : entry logging "level" ≠ .null) :
    levelOf logging = asLevel (entry logging "level") := by
  rw [levelOf]
  split
  · rename_i hnull
    exact absurd hnull h
  · rfl

theorem levelWord_eq {d : Value} (h : entry (entry d "logging") "level" ≠ .null) :
    levelWord d = Level.plainWord (entry (entry d "logging") "level").shown := by
  rw [levelWord]
  split
  · rename_i hnull
    exact absurd hnull h
  · rfl

/-- Of a document whose level is not refused, the level is the word that it asks for, and one of the names. -/
theorem levelOf_of_not_refused {d : Value} (h : ¬ RefusesLevel d) :
    levelWord d ∈ Level.names ∧ levelOf (entry d "logging") = .ok (levelWord d) := by
  by_cases hnull : entry (entry d "logging") "level" = .null
  · rw [levelWord, levelOf, hnull]
    exact ⟨by decide, rfl⟩
  · have hknown : Level.plainWord (entry (entry d "logging") "level").shown ∈ Level.names :=
      Decidable.byContradiction fun hunknown => h ⟨isTable_of_entry_ne_null hnull, hnull, hunknown⟩
    obtain ⟨l, hl⟩ := Level.resolve_word_of_mem (Level.plainWord_plainWord_mem_iff.2 hknown)
    rw [levelWord_eq hnull, levelOf_eq_asLevel hnull, asLevel_eq, hl]
    exact ⟨hknown, rfl⟩

/-- Of a document whose level is refused, the word is told back in plain form. -/
theorem levelOf_of_refused {d : Value} (h : RefusesLevel d) : levelOf (entry d "logging") =
    .error ⟨Level.plainWord (entry (entry d "logging") "level").shown⟩ := by
  obtain ⟨-, hnull, hunknown⟩ := h
  rw [levelOf_eq_asLevel hnull, asLevel_eq,
    Level.resolve_word_of_not_mem (mt Level.plainWord_plainWord_mem_iff.1 hunknown)]
  rfl

/-- A level that is read is the word asked for, and one of the names. -/
theorem level_of_levelOf {d : Value} {level : String} (h : levelOf (entry d "logging") = .ok level) :
    level = levelWord d ∧ level ∈ Level.names := by
  by_cases hrefused : RefusesLevel d
  · rw [levelOf_of_refused hrefused] at h
    cases h
  · obtain ⟨hknown, hlevel⟩ := levelOf_of_not_refused hrefused
    rw [h] at hlevel
    obtain rfl := Except.ok.inj hlevel
    exact ⟨rfl, hknown⟩

/-! ## The passes -/

/-- The items that a value gives as names: a text gives itself, a list or a pair the scalars among its items,
and a string of bytes their numbers. -/
def usable : Value → List Value
  | .text s => [.text s]
  | .list items => items.filter Value.isScalar
  | .pair first second => [first, second].filter Value.isScalar
  | .bytes content => content.map fun b => .whole b.toNat
  | _ => []

theorem asName_eq (item : Value) : asName item = if item.isScalar then some item.shown else none := by
  cases item <;> rfl

theorem filterMap_asName (items : List Value) :
    items.filterMap asName = (items.filter Value.isScalar).map Value.shown := by
  induction items with
  | nil => rfl
  | cons item items ih =>
    rw [List.filterMap_cons, asName_eq, List.filter_cons, ih]
    cases item.isScalar <;> rfl

/-- The names that a value stands for are the texts of its usable items, in order. -/
theorem asNames_eq (v : Value) : asNames v = (usable v).map Value.shown := by
  cases v with
  | list items => exact filterMap_asName items
  | pair first second => exact filterMap_asName [first, second]
  | bytes content =>
    have hall : (content.map fun b => Value.whole b.toNat).filter Value.isScalar =
        content.map fun b => .whole b.toNat := by
      refine List.filter_eq_self.2 fun item hitem => ?_
      obtain ⟨b, -, rfl⟩ := List.mem_map.1 hitem
      rfl
    rw [usable, ← hall]
    exact filterMap_asName _
  | _ => rfl

example : asNames (.bytes [97, 98, 99]) = ["97", "98", "99"] := by decide

/-! ## Documents -/

/-- What a document stands for: nothing at all is an empty table. -/
def orEmpty : Value → Value
  | .null => .table []
  | v => v

/-- The configuration of a document, in a project at `root`. -/
def ofParsed (root : Location) (d : Value) : Except LoadError Config := ofDocument root (orEmpty d)

theorem entry_orEmpty (d : Value) (word : String) : entry (orEmpty d) word = entry d word := by
  cases d <;> rfl

theorem isTable_orEmpty {d : Value} : (orEmpty d).IsTable ↔ d = .null ∨ d.IsTable := by
  cases d with
  | null => exact ⟨fun _ => Or.inl rfl, fun _ => ⟨[], rfl⟩⟩
  | table rows => exact ⟨Or.inr, fun _ => ⟨rows, rfl⟩⟩
  | _ => exact ⟨Or.inr, fun h => h.resolve_left nofun⟩

theorem isWritable_orEmpty {d : Value} (h : d.isWritable = true) : (orEmpty d).isWritable = true := by
  cases d with
  | null => rfl
  | _ => exact h

/-! ## Reading section by section -/

/-- What is read off a document: each part looks at its own section. -/
structure ReadOff (root : Location) (d : Value) (c : Config) : Prop where
  root_eq : c.root = root
  includeSource_eq : c.includeSource = includeSourceOf (entry d "settings")
  passes_eq : c.passes = asNames (entry (entry d "compiler") "passes")
  level_eq : levelOf (entry d "logging") = .ok c.level
  file_eq : c.file = (asFile root (entry (entry d "logging") "file")).map Location.normal

theorem exists_of_levelOf (root : Location) {d : Value} {level : String} (ht : d.IsTable)
    (h : levelOf (entry d "logging") = .ok level) : ∃ c, ofValue root d = .ok c ∧ ReadOff root d c := by
  obtain ⟨rows, rfl⟩ := ht
  refine ⟨⟨root, includeSourceOf (entry (.table rows) "settings"), passesOf (.table rows), level,
    (fileOf root (.table rows)).map Location.normal⟩, ?_, ⟨rfl, rfl, rfl, h, rfl⟩⟩
  rw [ofValue, h]
  rfl

theorem readOff_of_ofValue {root : Location} {d : Value} {c : Config} (h : ofValue root d = .ok c) :
    ReadOff root d c := by
  cases d with
  | table rows =>
    cases hlevel : levelOf (entry (.table rows) "logging") with
    | error e =>
      rw [ofValue, hlevel] at h
      cases h
    | ok level =>
      obtain ⟨c', hc', hread⟩ := exists_of_levelOf root ⟨rows, rfl⟩ hlevel
      rw [h] at hc'
      exact Except.ok.inj hc' ▸ hread
  | _ => cases h

/-- Where everything can be written that has to be, the sections decide, and the name of the log file is
looked at last. -/
theorem ofDocument_eq {root : Location} {v : Value} (h : (written v).all Value.isWritable = true) :
    ofDocument root v = match ofValue root v with
      | .error e => .error (.config e)
      | .ok c => if (fileOf root v).any Location.hasNull then .error (.disk .nullName) else .ok c := by
  rw [ofDocument, h]
  cases ofValue root v with
  | error e => rfl
  | ok c => cases (fileOf root v).any Location.hasNull <;> rfl

/-- A document that is no table is refused. -/
theorem ofDocument_of_not_table {root : Location} {v : Value} (hw : v.isWritable = true)
    (ht : ¬ v.IsTable) : ofDocument root v = .error (.config .notTable) := by
  have hv : ofValue root v = .error .notTable := by
    cases v with
    | table rows => exact absurd ⟨rows, rfl⟩ ht
    | _ => rfl
  rw [ofDocument_eq (written_isWritable hw), hv]

theorem isTable_of_refused {v : Value} (h : RefusesLevel v) : v.IsTable := by
  obtain ⟨rows, hrows⟩ := h.1
  have hsome : entry v "logging" ≠ .null := by
    rw [hrows]
    exact nofun
  exact isTable_of_entry_ne_null hsome

/-- A document that asks for an unknown level is refused, and told the word in plain form. -/
theorem ofDocument_of_refused {root : Location} {v : Value} (hw : v.isWritable = true)
    (h : RefusesLevel v) : ofDocument root v =
      .error (.config (.level ⟨Level.plainWord (entry (entry v "logging") "level").shown⟩)) := by
  obtain ⟨rows, rfl⟩ := isTable_of_refused h
  rw [ofDocument_eq (written_isWritable hw), ofValue, levelOf_of_refused h]
  rfl

/-- Any other document is read, unless the name of the log file is none. -/
theorem ofDocument_of_table {root : Location} {v : Value} (hw : v.isWritable = true) (ht : v.IsTable)
    (h : ¬ RefusesLevel v) : (∃ c, ofDocument root v = .ok c) ∨
      ofDocument root v = .error (.disk .nullName) ∧ (fileOf root v).any Location.hasNull = true := by
  obtain ⟨-, hlevel⟩ := levelOf_of_not_refused h
  obtain ⟨c, hc, -⟩ := exists_of_levelOf root ht hlevel
  rw [ofDocument_eq (written_isWritable hw), hc]
  cases (fileOf root v).any Location.hasNull with
  | true => exact Or.inr ⟨rfl, rfl⟩
  | false => exact Or.inl ⟨c, rfl⟩

theorem ofValue_of_ofDocument {root : Location} {v : Value} {c : Config} (h : ofDocument root v = .ok c) :
    ofValue root v = .ok c := by
  cases hw : (written v).all Value.isWritable with
  | false =>
    rw [ofDocument, hw] at h
    cases h
  | true =>
    rw [ofDocument_eq hw] at h
    cases hv : ofValue root v with
    | error e =>
      rw [hv] at h
      cases h
    | ok c' =>
      rw [hv] at h
      cases hnull : (fileOf root v).any Location.hasNull with
      | true =>
        rw [hnull] at h
        cases h
      | false =>
        rw [hnull] at h
        exact congrArg Except.ok (Except.ok.inj h)

theorem readOff_of_ofParsed {root : Location} {d : Value} {c : Config} (h : ofParsed root d = .ok c) :
    ReadOff root d c := by
  obtain ⟨hroot, hsource, hpasses, hlevel, hfile⟩ := readOff_of_ofValue (ofValue_of_ofDocument h)
  rw [entry_orEmpty] at hsource hpasses hlevel hfile
  exact ⟨hroot, hsource, hpasses, hlevel, hfile⟩

theorem refusesLevel_orEmpty {d : Value} : RefusesLevel (orEmpty d) ↔ RefusesLevel d := by
  rw [RefusesLevel, RefusesLevel, entry_orEmpty]

/-- What is nothing or a table, and asks for no unknown level, is read. -/
theorem ofParsed_of_not_refused {root : Location} {d : Value} (hd : d.isWritable = true)
    (ht : d = .null ∨ d.IsTable) (h : ¬ RefusesLevel d) : (∃ c, ofParsed root d = .ok c) ∨
      ofParsed root d = .error (.disk .nullName) ∧ (fileOf root d).any Location.hasNull = true := by
  have hfile : fileOf root (orEmpty d) = fileOf root d := by rw [fileOf, fileOf, entry_orEmpty]
  rw [← hfile]
  exact ofDocument_of_table (isWritable_orEmpty hd) (isTable_orEmpty.2 ht) (mt refusesLevel_orEmpty.1 h)

/-- Nothing else is refused as a configuration. -/
theorem ofParsed_refused_iff {root : Location} {d : Value} (hd : d.isWritable = true) :
    (∃ e, ofParsed root d = .error (.config e)) ↔ ¬ (d = .null ∨ d.IsTable) ∨ RefusesLevel d := by
  have hw := isWritable_orEmpty hd
  constructor
  · rintro ⟨e, he⟩
    by_cases ht : d = .null ∨ d.IsTable
    · refine Or.inr (Classical.byContradiction fun hlevel => ?_)
      rcases ofParsed_of_not_refused hd ht hlevel with ⟨c, hc⟩ | ⟨hdisk, -⟩
      · rw [hc] at he
        cases he
      · rw [hdisk] at he
        cases he
    · exact Or.inl ht
  · rintro (ht | hlevel)
    · exact ⟨_, ofDocument_of_not_table hw (mt isTable_orEmpty.1 ht)⟩
    · exact ⟨_, ofDocument_of_refused hw (refusesLevel_orEmpty.2 hlevel)⟩

/-- Documents that agree on a section agree on what is read off it. -/
theorem ReadOff.agree {root root' : Location} {d d' : Value} {c c' : Config} (h : ReadOff root d c)
    (h' : ReadOff root' d' c') :
    (entry d "settings" = entry d' "settings" → c.includeSource = c'.includeSource) ∧
    (entry d "compiler" = entry d' "compiler" → c.passes = c'.passes) ∧
    (entry d "logging" = entry d' "logging" →
      c.level = c'.level ∧ (root = root' → c.file = c'.file)) := by
  refine ⟨fun hsame => ?_, fun hsame => ?_, fun hsame => ⟨?_, fun hroot => ?_⟩⟩
  · rw [h.includeSource_eq, h'.includeSource_eq, hsame]
  · rw [h.passes_eq, h'.passes_eq, hsame]
  · exact Except.ok.inj (by rw [← h.level_eq, ← h'.level_eq, hsame])
  · rw [h.file_eq, h'.file_eq, hsame, hroot]

/-! ## Documents on a disk -/

/-- Asked for by a location, a reader finds a document on a disk at this place. -/
structure Found (read : Reader) (disk : Disk) (asked place : Location) (d : Value) : Prop where
  /-- A directory stands for the file in it, and anything else for the file beside it. -/
  place_eq : disk.isDirectory asked = .ok true ∧ place = (asked.child fileName).normal ∨
    disk.isDirectory asked = .ok false ∧ asked.parent.hasNull = false ∧
      place = (asked.parent.child fileName).normal
  /-- The text there is the document; a blank one is none. -/
  reads : ∃ text, disk.readText place = .ok text ∧ if isAllBlank text then d = .null else read text = .ok d

section Found

variable {read : Reader} {disk : Disk} {asked place : Location} {d : Value}

/-- Whoever asks for the file itself asks for the file beside it. -/
theorem beside_eq (asked : Location) :
    (if asked.name = fileName then asked else asked.parent.child fileName) =
      asked.parent.child fileName := by
  split
  · rename_i hname
    have hlast : fileName ∈ asked.names.getLast? := by
      rw [Location.name] at hname
      cases hlast : asked.names.getLast? with
      | none =>
        rw [hlast] at hname
        exact absurd hname (by decide)
      | some last =>
        rw [hlast] at hname
        exact congrArg some hname
    exact congrArg Location.mk (List.dropLast_append_getLast? _ hlast).symm
  · rfl

theorem hasNull_child_fileName (l : Location) : (l.child fileName).hasNull = l.hasNull := by
  rw [Location.hasNull, Location.child, List.any_append]
  exact Bool.or_false _

theorem Found.placeOf_eq (h : Found read disk asked place d) : placeOf disk asked = .ok place := by
  rcases h.place_eq with ⟨hdirectory, rfl⟩ | ⟨hother, hnull, rfl⟩
  · rw [placeOf, hdirectory]
    rfl
  · rw [placeOf, hother, beside_eq]
    show (if (asked.parent.child fileName).hasNull = true then _ else _) = _
    rw [hasNull_child_fileName, hnull]
    rfl

theorem Found.isThere_eq (h : Found read disk asked place d) : disk.isThere place = .ok true := by
  obtain ⟨text, htext, -⟩ := h.reads
  cases hlook : disk.look place with
  | error e =>
    rw [Disk.readText, hlook] at htext
    cases htext
  | ok item => rw [Disk.isThere, hlook]

/-- Where a document is found, loading is reading it. -/
theorem load_of_found (h : Found read disk asked place d) :
    load read disk asked = ofParsed place.parent d := by
  obtain ⟨text, htext, hd⟩ := h.reads
  have hvalue : readValue read text = .ok (orEmpty d) := by
    rw [readValue]
    split at hd
    · rename_i hblank
      rw [if_pos hblank, hd]
      rfl
    · rename_i hblank
      rw [if_neg hblank, hd]
      cases d <;> rfl
  rw [load, h.placeOf_eq]
  show (disk.isThere place).mapError LoadError.disk >>= _ = _
  rw [h.isThere_eq]
  show (disk.readText place).mapError LoadError.disk >>= _ = _
  rw [htext]
  show readValue read text >>= _ = _
  rw [hvalue]
  rfl

/-- **The theorem.**  A document whose whole numbers can be written, wherever it is found, is refused as a
configuration EXACTLY if it is something, but no table, or asks for a level that is not known; nothing else in
any section is an error, except that the log file may have a name that no disk takes.  A configuration that is
read is for the directory of its file; it has the level that was asked for, which is known, and as passes the
texts of the usable items in order.  Each of its parts is read off one section, whatever else the document
says. -/
theorem load_outcome (h : Found read disk asked place d) (hd : d.isWritable = true) :
    ((∃ e, load read disk asked = .error (.config e)) ↔ ¬ (d = .null ∨ d.IsTable) ∨ RefusesLevel d) ∧
    (d = .null ∨ d.IsTable → ¬ RefusesLevel d → (∃ c, load read disk asked = .ok c) ∨
      load read disk asked = .error (.disk .nullName) ∧
        (fileOf place.parent d).any Location.hasNull = true) ∧
    ∀ c, load read disk asked = .ok c →
      c.root = place.parent ∧ c.level = levelWord d ∧ c.level ∈ ["debug", "info", "warning", "error"] ∧
      c.passes = (usable (entry (entry d "compiler") "passes")).map Value.shown ∧
      ∀ read' disk' asked' place' d' c', Found read' disk' asked' place' d' →
        load read' disk' asked' = .ok c' →
        (entry d "settings" = entry d' "settings" → c.includeSource = c'.includeSource) ∧
        (entry d "compiler" = entry d' "compiler" → c.passes = c'.passes) ∧
        (entry d "logging" = entry d' "logging" →
          c.level = c'.level ∧ (place.parent = place'.parent → c.file = c'.file)) := by
  rw [load_of_found h]
  refine ⟨ofParsed_refused_iff hd, ofParsed_of_not_refused hd, fun c hc => ?_⟩
  have hoff := readOff_of_ofParsed hc
  obtain ⟨hword, hknown⟩ := level_of_levelOf hoff.level_eq
  refine ⟨hoff.root_eq, hword, hknown, ?_, fun read' disk' asked' place' d' c' h' hc' => ?_⟩
  · rw [hoff.passes_eq, asNames_eq]
  · rw [load_of_found h'] at hc'
    exact hoff.agree (readOff_of_ofParsed hc')

end Found

/-- A document with a level in capitals, and passes that are not all texts.  The directory stands for it, and so
does the file itself, and another file beside it. -/
theorem load_outcome_mixed :
    let text := "logging:\n  level: ' Debug '\ncompiler:\n  passes: [elements, 7, ~, yes, !!binary YWI=]\n"
    let d : Value := .table [(.text "logging", .table [(.text "level", .text " Debug ")]),
      (.text "compiler", .table [(.text "passes",
        .list [.text "elements", .whole 7, .null, .flag true, .bytes [97, 98]])])]
    let read : Reader := fun t => if t = text then .ok d else .error (.malformed "no document")
    let disk := Disk.empty.withFile ⟨["base", ".doccompiler.yml"]⟩ text.toUTF8
    d.isWritable = true ∧ ∀ name ∈ [[], ["docs.xml"], [".doccompiler.yml"]],
      Found read disk ⟨"base" :: name⟩ ⟨["base", ".doccompiler.yml"]⟩ d ∧
      ∃ c, load read disk ⟨"base" :: name⟩ = .ok c ∧ c.root = ⟨["base"]⟩ ∧ c.level = "debug" ∧
        c.passes = ["elements", "7", "True"] := by
  intro text d read disk
  have hd : d.isWritable = true := by decide +kernel
  refine ⟨hd, fun name hname => ?_⟩
  have htext : disk.readText ⟨["base", ".doccompiler.yml"]⟩ = .ok text := by
    subst disk text
    rfl
  have hreads : if isAllBlank text then d = .null else read text = .ok d := by
    rw [if_neg (by decide)]
    exact if_pos rfl
  have hfound : Found read disk ⟨"base" :: name⟩ ⟨["base", ".doccompiler.yml"]⟩ d := by
    refine ⟨?_, text, htext, hreads⟩
    rcases List.mem_cons.1 hname with rfl | hname
    · exact Or.inl ⟨rfl, rfl⟩
    · rcases List.mem_cons.1 hname with rfl | hname
      · exact Or.inr ⟨rfl, rfl, rfl⟩
      · obtain rfl := List.mem_singleton.1 hname
        exact Or.inr ⟨rfl, rfl, rfl⟩
  refine ⟨hfound, ?_⟩
  obtain ⟨-, hread, hsays⟩ := load_outcome hfound hd
  have hlevel : ¬ RefusesLevel d := fun h => h.2.2 (by decide)
  rcases hread (Or.inr ⟨_, rfl⟩) hlevel with ⟨c, hc⟩ | ⟨-, hnull⟩
  · obtain ⟨hroot, hword, -, hpasses, -⟩ := hsays c hc
    have hdebug : levelWord d = "debug" := by decide
    exact ⟨c, hc, hroot, hword.trans hdebug, hpasses⟩
  · cases hnull

end Config

end Docset
