/-
  The indexes of elements, as one reading of the files makes them.

  **The theorem** (`indexElements_catalogues`): whatever the indexes held before, after elements have been
  indexed the index of all elements catalogues what the files declare, each element followed by what it
  owns, and the index of each kind catalogues the elements of that kind.  To catalogue elements
  (`Store.Catalogues`) is to have their names as keys, in the order in which they FIRST come, each for the
  element that came LAST; one index alone does so (`Store.Catalogues.unique`).  Nothing else in the store
  is touched.

  The indexes are defined one by one, each from a list of its own.  But the files may be read only ONCE,
  with every element written into two indexes as it comes, and what it owns into one of them
  (`Store.indexInTurn`).  That this comes to the same is `withElementIndexes_eq`:

  1. such a reading works off one list of writes (`Store.writes`), and changes only indexes while it does
     (`enterFiles_withIndexes`);
  2. each write goes to one index, so the indexes together hold, under every name, what the list has for
     it (`foldl_enterOne`): the load-bearing step, an induction on the writes that are done;
  3. what the list has for a name is what the index of that name was defined from (`chosen_writes`,
     `chosen_writes_kind`).
-/
import Mathlib.Data.List.Basic
import Docset.Proofs.Build
import Docset.Proofs.Input
import Docset.Proofs.Ledger

namespace Docset

open Build

variable {ε : Type} {d : SetId} {s t : Store}

/-! ## What an index lists -/

/-- The index has the elements of the list under their names: the names stand as they first come, and
    each is for the last element that has it. -/
structure Store.Catalogues (s : Store) (index : Index) (es : List ElementId) : Prop where
  keys : index.keys = (es.map s.indexKey).eraseDups
  get? : ∀ key entry, index.get? key = some entry ↔
    ∃ before e after, es = before ++ e :: after ∧ s.indexKey e = key ∧
      (∀ later ∈ after, s.indexKey later ≠ key) ∧ entry = .element e

/-- The index of a list of elements, as a ledger of pairs. -/
theorem Store.indexOf_eq_ofList (s : Store) (es : List ElementId) :
    s.indexOf es = Ledger.ofList (es.map fun e => (s.indexKey e, .element e)) := rfl

theorem Store.indexOf_concat (s : Store) (es : List ElementId) (e : ElementId) :
    s.indexOf (es ++ [e]) = (s.indexOf es).put (s.indexKey e) (.element e) := by
  rw [indexOf_eq_ofList, List.map_append, List.map_singleton, Ledger.ofList_concat]
  rfl

/-- The index of a list of elements lists them. -/
theorem Store.catalogues_indexOf (s : Store) (es : List ElementId) : s.Catalogues (s.indexOf es) es where
  keys := by
    rw [indexOf_eq_ofList, Ledger.keys_ofList, List.map_map]
    rfl
  get? := by
    intro key entry
    rw [indexOf_eq_ofList, Ledger.get?_ofList_eq_some_iff]
    constructor
    · rintro ⟨before, after, hpairs, hafter⟩
      obtain ⟨front, rest, rfl, rfl, hrest⟩ := List.map_eq_append_iff.1 hpairs
      obtain ⟨e, back, rfl, he, rfl⟩ := List.map_eq_cons_iff.1 hrest
      obtain ⟨hkey, hentry⟩ := Prod.mk.inj he
      refine ⟨front, e, back, rfl, hkey, fun later hlater heq => hafter ?_, hentry.symm⟩
      rw [List.map_map]
      exact List.mem_map.2 ⟨later, hlater, heq⟩
    · rintro ⟨before, e, after, rfl, rfl, hafter, rfl⟩
      refine ⟨_, _, List.map_append.trans rfl, ?_⟩
      rw [List.map_map, List.mem_map]
      rintro ⟨later, hlater, heq⟩
      exact hafter later hlater heq

/-- Keys and elements leave no choice: a list is catalogued by one index. -/
theorem Store.Catalogues.unique {index other : Index} {es : List ElementId} (h : s.Catalogues index es)
    (hother : s.Catalogues other es) : index = other := by
  refine Ledger.eq_of_get? ?_ (h.keys.trans hother.keys.symm) fun key => Option.ext fun entry => ?_
  · rw [h.keys, ← (s.catalogues_indexOf es).keys]
    exact Ledger.nodup_keys_ofList _
  · rw [h.get?, hother.get?]

/-! ## Sets with other indexes -/

/-- The names of the indexes of elements. -/
def elementIndexNames : List String := elementsIndex :: kindIndexes.map Prod.snd

theorem nodup_elementIndexNames : elementIndexNames.Nodup := by decide

/-- A set with all its indexes replaced. -/
def Store.withIndexes (s : Store) (d : SetId) (indexes : Ledger String Index) : Store :=
  s.updateSet d fun set => { set with indexes := indexes }

namespace Store

variable (s : Store) (d : SetId) (indexes : Ledger String Index)

theorem docSet_withIndexes :
    (s.withIndexes d indexes).docSet d = { s.docSet d with indexes := indexes } :=
  docSet_updateSet s d _

theorem index?_withIndexes (name : String) :
    (s.withIndexes d indexes).index? d name = indexes.get? name := by
  rw [index?, docSet_withIndexes]

theorem setIndex_eq (name : String) (index : Index) :
    s.setIndex d name index = s.withIndexes d ((s.docSet d).indexes.put name index) := rfl

theorem withIndexes_withIndexes (more : Ledger String Index) :
    (s.withIndexes d indexes).withIndexes d more = s.withIndexes d more :=
  updateSet_updateSet s d _ _

theorem setIndex_withIndexes (name : String) (index : Index) :
    (s.withIndexes d indexes).setIndex d name index = s.withIndexes d (indexes.put name index) := by
  rw [setIndex_eq, withIndexes_withIndexes, docSet_withIndexes]

theorem putEntry_withIndexes (name key : String) (entry : Entry) :
    (s.withIndexes d indexes).putEntry d name key entry =
      s.withIndexes d (indexes.put name (((indexes.get? name).getD .empty).put key entry)) := by
  rw [putEntry, index, index?_withIndexes, setIndex_withIndexes]

/-- Installing indexes one after the other. -/
theorem foldl_setIndex {α : Type} (name : α → String) (index : α → Index) (as : List α) :
    as.foldl (fun t a => t.setIndex d (name a) (index a)) (s.withIndexes d indexes) =
      s.withIndexes d (indexes.putAll (as.map fun a => (name a, index a))) := by
  induction as generalizing indexes with
  | nil => rfl
  | cons a rest ih =>
    rw [List.foldl_cons, setIndex_withIndexes, ih]
    rfl

/-- The indexes of elements, each under its name. -/
def elementIndexes : List (String × Index) :=
  (elementsIndex, s.indexOf (s.indexed d)) ::
    kindIndexes.map fun pair => (pair.2, s.indexOf (s.declared d [pair.1]))

/-- Making the indexes anew installs all of them. -/
theorem withElementIndexes_putAll :
    s.withElementIndexes d = s.withIndexes d ((s.docSet d).indexes.putAll (s.elementIndexes d)) := by
  rw [withElementIndexes, setIndex_eq]
  exact foldl_setIndex s d _ (fun pair : Kind × String => pair.2)
    (fun pair => s.indexOf (s.declared d [pair.1])) kindIndexes

theorem names_elementIndexes : (s.elementIndexes d).map Prod.fst = elementIndexNames := by
  rw [elementIndexes, List.map_cons, List.map_map]
  rfl

theorem index?_withElementIndexes {name : String} {index : Index}
    (h : (name, index) ∈ s.elementIndexes d) :
    (s.withElementIndexes d).index? d name = some index := by
  rw [withElementIndexes_putAll, index?_withIndexes]
  refine Ledger.get?_putAll_of_mem ?_ h
  rw [names_elementIndexes]
  exact nodup_elementIndexNames

theorem index?_withElementIndexes_of_not_mem {name : String} (h : name ∉ elementIndexNames) :
    (s.withElementIndexes d).index? d name = s.index? d name := by
  rw [withElementIndexes_putAll, index?_withIndexes, Ledger.get?_putAll_of_not_mem]
  · rfl
  · rw [names_elementIndexes]
    exact h

end Store

/-! ## Reading the files once -/

namespace Store

/-- A set with all indexes of elements made anew, and empty. -/
def openElementIndexes (s : Store) (d : SetId) : Store :=
  kindIndexes.foldl (fun t (_, name) => t.setIndex d name .empty) (s.setIndex d elementsIndex .empty)

/-- Enters an element into the index of its kind and into that of all elements, and what it owns into the
    latter. -/
def enterDeclared (s : Store) (d : SetId) (name : String) (e : ElementId) : Store :=
  let t := s.enterAll d [name, elementsIndex] [e]
  t.enterAll d [elementsIndex] (t.owned e)

/-- Enters what a file declares, kind by kind. -/
def enterFile (s : Store) (d : SetId) (file : ElementId) : Store :=
  kindIndexes.foldl
    (fun t (kind, name) => (t.membersOf file kind).foldl (fun t e => t.enterDeclared d name e) t) s

/-- A set with its indexes of elements made anew by one reading of its files. -/
def indexInTurn (s : Store) (d : SetId) : Store :=
  (s.files d).values.foldl (fun t file => t.enterFile d file) (s.openElementIndexes d)

/-! ### The writes of a reading -/

/-- What is written for a declared element: the name of each index, and the element that goes into it. -/
def writesOf (s : Store) (name : String) (e : ElementId) : List (String × ElementId) :=
  (name, e) :: (elementsIndex, e) :: (s.owned e).map fun member => (elementsIndex, member)

/-- What is written for a file. -/
def writesIn (s : Store) (file : ElementId) : List (String × ElementId) :=
  kindIndexes.flatMap fun (kind, name) => (s.membersOf file kind).flatMap (s.writesOf name)

/-- What is written for the files of a set. -/
def writes (s : Store) (d : SetId) : List (String × ElementId) :=
  (s.files d).values.flatMap s.writesIn

/-- One write, told by the indexes alone. -/
def enterOne (s : Store) (indexes : Ledger String Index) (write : String × ElementId) :
    Ledger String Index :=
  indexes.put write.1
    (((indexes.get? write.1).getD .empty).put (s.indexKey write.2) (.element write.2))

/-- Where each step of a loop is a list of writes, the loop is all of them together. -/
theorem foldl_withIndexes {α : Type} {s : Store} {d : SetId} {step : Store → α → Store}
    {writes : α → List (String × ElementId)}
    (hstep : ∀ indexes a, step (s.withIndexes d indexes) a =
      s.withIndexes d ((writes a).foldl s.enterOne indexes))
    (as : List α) (indexes : Ledger String Index) :
    as.foldl step (s.withIndexes d indexes) =
      s.withIndexes d ((as.flatMap writes).foldl s.enterOne indexes) := by
  induction as generalizing indexes with
  | nil => rfl
  | cons a rest ih => rw [List.foldl_cons, hstep, ih, List.flatMap_cons, List.foldl_append]

section Steps

variable (s : Store) (d : SetId) (indexes : Ledger String Index)

theorem enterAll_withIndexes (names : List String) (es : List ElementId) :
    (s.withIndexes d indexes).enterAll d names es =
      s.withIndexes d ((es.flatMap fun e => names.map fun name => (name, e)).foldl s.enterOne indexes) := by
  refine foldl_withIndexes (fun indexes e => ?_) es indexes
  rw [List.map_eq_flatMap]
  refine foldl_withIndexes (fun indexes name => ?_) names indexes
  exact putEntry_withIndexes s d indexes name _ _

theorem enterDeclared_withIndexes (name : String) (e : ElementId) :
    (s.withIndexes d indexes).enterDeclared d name e =
      s.withIndexes d ((s.writesOf name e).foldl s.enterOne indexes) := by
  rw [enterDeclared, enterAll_withIndexes, enterAll_withIndexes, ← List.foldl_append, writesOf,
    List.map_eq_flatMap]
  rfl

theorem enterFile_withIndexes (file : ElementId) :
    (s.withIndexes d indexes).enterFile d file =
      s.withIndexes d ((s.writesIn file).foldl s.enterOne indexes) := by
  refine foldl_withIndexes (fun indexes pair => ?_) kindIndexes indexes
  refine foldl_withIndexes (fun indexes e => ?_) (s.membersOf file pair.1) indexes
  exact enterDeclared_withIndexes s d indexes pair.2 e

theorem enterFiles_withIndexes (files : List ElementId) :
    files.foldl (fun t file => t.enterFile d file) (s.withIndexes d indexes) =
      s.withIndexes d ((files.flatMap s.writesIn).foldl s.enterOne indexes) := by
  refine foldl_withIndexes (fun indexes file => ?_) files indexes
  exact enterFile_withIndexes s d indexes file

end Steps

/-! ### What comes of the writes -/

/-- The elements that a list of writes has for the index with a name. -/
def chosen (writes : List (String × ElementId)) (name : String) : List ElementId :=
  (writes.filter fun write => write.1 = name).map Prod.snd

theorem chosen_concat (writes : List (String × ElementId)) (name other : String) (e : ElementId) :
    chosen (writes ++ [(name, e)]) other =
      if name = other then chosen writes other ++ [e] else chosen writes other := by
  rw [chosen, List.filter_append, List.map_append]
  by_cases h : name = other
  · simp [chosen, h]
  · simp [chosen, h]

/-- While writes are worked off, every index holds what was written under its name. -/
theorem foldl_enterOne (s : Store) {names : List String} (hnames : names.Nodup)
    {writes : List (String × ElementId)} (hwrites : ∀ write ∈ writes, write.1 ∈ names)
    (indexes : Ledger String Index) :
    writes.foldl s.enterOne (indexes.putAll (names.map fun name => (name, .empty))) =
      indexes.putAll (names.map fun name => (name, s.indexOf (chosen writes name))) := by
  induction writes using List.reverseRecOn with
  | nil => rfl
  | append_singleton writes write ih =>
    obtain ⟨name, e⟩ := write
    have hname : name ∈ names := hwrites (name, e) (List.mem_append_right _ List.mem_cons_self)
    have hdone := ih fun write hwrite => hwrites write (List.mem_append_left _ hwrite)
    rw [List.foldl_append, hdone, List.foldl_cons, List.foldl_nil, enterOne,
      Ledger.get?_putAll_map hnames indexes _ hname, Option.getD_some, ← indexOf_concat,
      Ledger.put_putAll_map hnames _ _ hname]
    refine congrArg indexes.putAll (List.map_congr_left fun other _ => congrArg (other, ·) ?_)
    rw [chosen_concat]
    by_cases h : other = name
    · rw [if_pos h, if_pos h.symm, h]
    · rw [if_neg h, if_neg (Ne.symm h)]

/-! ### One list of writes for each index -/

theorem chosen_flatMap {α : Type} (as : List α) (writes : α → List (String × ElementId)) (name : String) :
    chosen (as.flatMap writes) name = as.flatMap fun a => chosen (writes a) name := by
  simp only [chosen, List.filter_flatMap, List.map_flatMap]

theorem ne_elementsIndex : ∀ pair ∈ kindIndexes, pair.2 ≠ elementsIndex := by decide

theorem chosen_writesOf_self (s : Store) {name : String} (hname : name ≠ elementsIndex) (e : ElementId) :
    chosen (s.writesOf name e) elementsIndex = e :: s.owned e := by
  have howned : ∀ es : List ElementId,
      chosen (es.map fun member => (elementsIndex, member)) elementsIndex = es := by
    intro es
    rw [List.map_eq_flatMap, chosen_flatMap]
    simp [chosen]
  simpa [writesOf, chosen, hname] using howned (s.owned e)

theorem chosen_writesOf (s : Store) {other : String} (hother : other ≠ elementsIndex) (name : String)
    (e : ElementId) : chosen (s.writesOf name e) other = if name = other then [e] else [] := by
  by_cases h : name = other
  · simp [writesOf, chosen, h, hother.symm]
  · simp [writesOf, chosen, h, hother.symm]

/-- Where names are not repeated, one pair alone answers to each. -/
theorem flatMap_ite_of_nodup {α β : Type} {pairs : List (α × String)}
    (hnames : (pairs.map Prod.snd).Nodup) {a : α} {name : String} (h : (a, name) ∈ pairs)
    (f : α → List β) : (pairs.flatMap fun pair => if pair.2 = name then f pair.1 else []) = f a := by
  induction pairs with
  | nil => cases h
  | cons pair rest ih =>
    obtain ⟨hpair, hrest⟩ := List.nodup_cons.1 hnames
    rw [List.flatMap_cons]
    rcases List.mem_cons.1 h with rfl | h
    · have hothers : (rest.flatMap fun pair => if pair.2 = name then f pair.1 else []) = [] := by
        refine List.flatMap_eq_nil_iff.2 fun other hother => if_neg fun heq => hpair ?_
        exact List.mem_map.2 ⟨other, hother, heq⟩
      rw [if_pos rfl, hothers, List.append_nil]
    · have hne : pair.2 ≠ name := fun heq => hpair (List.mem_map.2 ⟨_, h, heq.symm⟩)
      rw [if_neg hne, ih hrest h, List.nil_append]

/-- Into the index of all elements go the declared ones, each followed by what it owns. -/
theorem chosen_writes (s : Store) (d : SetId) : chosen (s.writes d) elementsIndex = s.indexed d := by
  have hfile : ∀ file, chosen (s.writesIn file) elementsIndex =
      (s.declaredIn (kindIndexes.map Prod.fst) file).flatMap fun e => e :: s.owned e := by
    intro file
    rw [writesIn, chosen_flatMap, declaredIn, List.flatMap_map, List.flatMap_assoc]
    refine List.flatMap_congr fun pair hpair => ?_
    rw [chosen_flatMap]
    exact List.flatMap_congr fun e _ => chosen_writesOf_self s (ne_elementsIndex pair hpair) e
  rw [writes, chosen_flatMap, indexed, declared, List.flatMap_assoc]
  exact List.flatMap_congr fun file _ => hfile file

/-- Into the index of a kind go the elements that are declared of it. -/
theorem chosen_writes_kind (s : Store) (d : SetId) {kind : Kind} {name : String}
    (hkind : (kind, name) ∈ kindIndexes) : chosen (s.writes d) name = s.declared d [kind] := by
  have hother : name ≠ elementsIndex := ne_elementsIndex (kind, name) hkind
  have hmembers : ∀ (pair : Kind × String) (file : ElementId),
      chosen ((s.membersOf file pair.1).flatMap (s.writesOf pair.2)) name =
        if pair.2 = name then s.membersOf file pair.1 else [] := by
    intro pair file
    simp only [chosen_flatMap, chosen_writesOf s hother]
    split
    · exact List.flatMap_singleton' _
    · exact List.flatMap_eq_nil_iff.2 fun _ _ => rfl
  -- No two kinds have one index, so of a file's writes only those of the kind are chosen.
  have hnames : (kindIndexes.map Prod.snd).Nodup := by decide
  have hfile : ∀ file, chosen (s.writesIn file) name = s.declaredIn [kind] file := by
    intro file
    simp only [writesIn, chosen_flatMap, hmembers]
    rw [flatMap_ite_of_nodup hnames hkind (s.membersOf file), declaredIn, List.flatMap_singleton]
  rw [writes, chosen_flatMap, declared]
  exact List.flatMap_congr fun file _ => hfile file

theorem mem_names_of_mem_writes {s : Store} {d : SetId} {write : String × ElementId}
    (hwrite : write ∈ s.writes d) : write.1 ∈ elementIndexNames := by
  obtain ⟨file, -, hwrite⟩ := List.mem_flatMap.1 hwrite
  obtain ⟨pair, hpair, hwrite⟩ := List.mem_flatMap.1 hwrite
  obtain ⟨e, -, hwrite⟩ := List.mem_flatMap.1 hwrite
  rcases List.mem_cons.1 hwrite with rfl | hwrite
  · exact List.mem_cons_of_mem _ (List.mem_map_of_mem hpair)
  · rcases List.mem_cons.1 hwrite with rfl | hwrite
    · exact List.mem_cons_self
    · obtain ⟨member, -, rfl⟩ := List.mem_map.1 hwrite
      exact List.mem_cons_self

theorem openElementIndexes_eq (s : Store) (d : SetId) :
    s.openElementIndexes d = s.withIndexes d
      ((s.docSet d).indexes.putAll (elementIndexNames.map fun name => (name, .empty))) := by
  rw [openElementIndexes, setIndex_eq, elementIndexNames, List.map_cons, List.map_map]
  exact foldl_setIndex s d _ (fun pair : Kind × String => pair.2) (fun _ => .empty) kindIndexes

/-- A reading fills every index with what is chosen for it. -/
theorem indexInTurn_eq (s : Store) (d : SetId) :
    s.indexInTurn d = s.withIndexes d ((s.docSet d).indexes.putAll
      (elementIndexNames.map fun name => (name, s.indexOf (chosen (s.writes d) name)))) := by
  have hnames : ∀ write ∈ s.writes d, write.1 ∈ elementIndexNames := fun _ => mem_names_of_mem_writes
  rw [indexInTurn, openElementIndexes_eq, enterFiles_withIndexes, ← writes,
    foldl_enterOne s nodup_elementIndexNames hnames]

/-- **One reading makes all the indexes**, each as if it had been made alone from its own elements. -/
theorem withElementIndexes_eq (s : Store) (d : SetId) : s.withElementIndexes d = s.indexInTurn d := by
  have hkinds : kindIndexes.map (fun pair => (pair.2, s.indexOf (s.declared d [pair.1]))) =
      (kindIndexes.map Prod.snd).map fun name => (name, s.indexOf (chosen (s.writes d) name)) := by
    rw [List.map_map]
    refine List.map_congr_left fun pair hpair => congrArg (pair.2, ·) ?_
    rw [chosen_writes_kind s d hpair]
  rw [indexInTurn_eq, withElementIndexes_putAll, elementIndexes, hkinds, elementIndexNames, List.map_cons,
    chosen_writes]

end Store

/-! ## Indexing elements -/

namespace Store

/-- An element and what is read with it: the members of the kinds that its own kind owns. -/
def readWith (s : Store) (e : ElementId) : List ElementId :=
  e :: match (s.element e).kind with
    | .classType => s.membersOf e .method ++ s.membersOf e .constant ++ s.membersOf e .property
    | .interfaceType => s.membersOf e .method ++ s.membersOf e .constant
    | .traitType => s.membersOf e .method ++ s.membersOf e .property
    | .enumType => s.membersOf e .method ++ s.membersOf e .enumCase
    | _ => []

/-- The elements of a set in the order of reading: file by file, and within a file kind by kind. -/
def reading (s : Store) (d : SetId) : List ElementId :=
  (s.files d).values.flatMap fun file =>
    [Kind.constant, .function, .classType, .interfaceType, .traitType, .enumType].flatMap fun kind =>
      (s.membersOf file kind).flatMap s.readWith

theorem readWith_eq (s : Store) (e : ElementId) : s.readWith e = e :: s.owned e := by
  rw [readWith, owned]
  cases (s.element e).kind <;> simp [Kind.owned]

/-- What is indexed is what is read. -/
theorem indexed_eq_reading (s : Store) (d : SetId) : s.indexed d = s.reading d := by
  have hread : s.readWith = fun e => e :: s.owned e := funext s.readWith_eq
  rw [indexed, declared, reading, List.flatMap_assoc, hread]
  refine List.flatMap_congr fun file _ => ?_
  rw [declaredIn, List.flatMap_assoc]
  rfl

theorem declared_singleton (s : Store) (d : SetId) (kind : Kind) :
    s.declared d [kind] = (s.files d).values.flatMap fun file => s.membersOf file kind := by
  rw [declared]
  refine List.flatMap_congr fun file _ => ?_
  rw [declaredIn, List.flatMap_singleton]

/-- In `t` the elements of the set are indexed, and all else is as in `s`. -/
structure ElementsIndexed (d : SetId) (s t : Store) : Prop where
  elements : ∃ index, t.index? d "elements" = some index ∧ s.Catalogues index (s.reading d)
  kinds : ∀ pair ∈ [(Kind.constant, "constants"), (.function, "functions"), (.classType, "classes"),
      (.interfaceType, "interfaces"), (.traitType, "traits"), (.enumType, "enums")],
    ∃ index, t.index? d pair.2 = some index ∧
      s.Catalogues index ((s.files d).values.flatMap fun file => s.membersOf file pair.1)
  others : ∀ name,
    name ∉ ["elements", "constants", "functions", "classes", "interfaces", "traits", "enums"] →
      t.index? d name = s.index? d name
  rows : t.elements = s.elements ∧ t.nodes = s.nodes
  set : t.docSet d = { s.docSet d with indexes := (t.docSet d).indexes }
  sets : ∀ other, other ≠ d → t.docSet other = s.docSet other

theorem elementsIndexed_withElementIndexes (s : Store) (d : SetId) :
    ElementsIndexed d s (s.withElementIndexes d) := by
  refine ⟨⟨_, index?_withElementIndexes s d List.mem_cons_self, ?_⟩, fun pair hpair => ?_,
    fun name hname => index?_withElementIndexes_of_not_mem s d hname, ?_, ?_, fun other hother => ?_⟩
  · rw [← indexed_eq_reading]
    exact s.catalogues_indexOf _
  · have hindex : (pair.2, s.indexOf (s.declared d [pair.1])) ∈ s.elementIndexes d :=
      List.mem_cons_of_mem _ (List.mem_map.2 ⟨pair, hpair, rfl⟩)
    refine ⟨_, index?_withElementIndexes s d hindex, ?_⟩
    rw [← declared_singleton]
    exact s.catalogues_indexOf _
  -- What is left is that only the indexes of this set are written.
  · rw [withElementIndexes_putAll]
    exact ⟨rfl, rfl⟩
  · rw [withElementIndexes_putAll, docSet_withIndexes]
  · rw [withElementIndexes_putAll]
    exact docSet_updateSet_of_ne hother s _

/-- The journal is no part of what is said. -/
theorem ElementsIndexed.record (h : ElementsIndexed d s t) (logger : String) (level : Level)
    (text : String) : ElementsIndexed d s (t.record logger level text) :=
  ⟨h.elements, h.kinds, h.others, h.rows, h.set, h.sets⟩

end Store

/-- **Indexing elements** lists under each name the elements that the files have for it, and touches
    nothing else. -/
theorem indexElements_catalogues (hcode : s.DescribesCode d) :
    Ensures (indexElements d : Build ε Unit) s fun _ t => Store.ElementsIndexed d s t := by
  obtain ⟨code, hcode⟩ := Option.isSome_iff_exists.1 hcode
  rw [indexElements, ensures_bind, ensures_get, hcode]
  dsimp only
  rw [ensures_bind, ensures_set, ensures_debug]
  exact (s.elementsIndexed_withElementIndexes d).record _ _ _

/-- A method is spelled like a function that is declared before it, and the indexes hold entries from
    before. -/
theorem indexElements_catalogues_collision :
    let s := ((((Store.ofDeclared [.declare .classType "\\A" "" (.path "") .unset,
      .declare .function "\\run()" "" (.path "") .unset]).addElement
        (.declare .method "\\run()" "" (.path "") .unset)).1.addMember ⟨1⟩ ⟨3⟩).putEntry ⟨0⟩
          "elements" "\\Old" (.element ⟨2⟩)).putEntry ⟨0⟩ "notes" "\\Old" (.element ⟨2⟩)
    s.DescribesCode ⟨0⟩ ∧ ∃ t, (indexElements ⟨0⟩ : Build BindError Unit) s = .ok () t ∧
      (∃ index, t.index? ⟨0⟩ "elements" = some index ∧ index.keys = ["\\run()", "\\A"] ∧
        index.get? "\\run()" = some (.element ⟨3⟩)) ∧
      (∃ index, t.index? ⟨0⟩ "functions" = some index ∧ index.get? "\\run()" = some (.element ⟨2⟩)) ∧
      ∃ notes, t.index? ⟨0⟩ "notes" = some notes ∧ notes.keys = ["\\Old"] := by
  intro s
  have hcode : s.DescribesCode ⟨0⟩ := by decide
  have hreading : s.reading ⟨0⟩ = [⟨2⟩, ⟨1⟩, ⟨3⟩] := by decide
  obtain ⟨⟨⟩, t, hrun, ⟨index, helements, hcatalogue⟩, hkinds, hothers, -⟩ :=
    (indexElements_catalogues hcode : Ensures (indexElements ⟨0⟩ : Build BindError Unit) s _)
  obtain ⟨functions, hfunctions, hlisted⟩ := hkinds (.function, "functions") (by decide)
  rw [hreading] at hcatalogue
  refine ⟨hcode, t, hrun, ⟨index, helements, ?_, ?_⟩, ⟨functions, hfunctions, ?_⟩, ?_⟩
  · rw [hcatalogue.keys]
    decide
  · exact (hcatalogue.get? _ _).2 ⟨[⟨2⟩, ⟨1⟩], ⟨3⟩, [], rfl, by decide, by decide, rfl⟩
  · exact (hlisted.get? _ _).2 ⟨[], ⟨2⟩, [], by decide, by decide, by decide, rfl⟩
  · rw [hothers "notes" (by decide)]
    exact ⟨_, rfl, rfl⟩

end Docset
