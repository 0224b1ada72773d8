/-
  The index of elements.

  The index "elements" has every declared element and what it owns under its qualified name, and each
  kind that is declared in files has an index of its own.  All are made anew from the files: of two
  elements with one name the later one is kept, in the place of the earlier.

  Both are ledgers made from one list, `Store.declared`, the elements that the files declare in the
  order in which they are read: file by file, and within a file kind by kind.
-/
import Docset.Store.Build

namespace Docset

/-! ## What is indexed -/

/-- The kinds that files declare, each with the name of its index, in the order of reading. -/
def kindIndexes : List (Kind × String) :=
  [(.constant, "constants"), (.function, "functions"), (.classType, "classes"),
   (.interfaceType, "interfaces"), (.traitType, "traits"), (.enumType, "enums")]

/-- The name of the index of elements. -/
def elementsIndex : String := "elements"

/-- The kinds of member that an element of a kind owns, in the order of reading. -/
def Kind.owned : Kind → List Kind
  | .classType => [.method, .constant, .property]
  | .interfaceType => [.method, .constant]
  | .traitType => [.method, .property]
  | .enumType => [.method, .enumCase]
  | _ => []

namespace Store

/-- The key of an element in an index. -/
def indexKey (s : Store) (e : ElementId) : String := (s.element e).qualifiedName

/-- The members that an element owns by its kind. -/
def owned (s : Store) (e : ElementId) : List ElementId :=
  (s.element e).kind.owned.flatMap (s.membersOf e)

/-- The elements that a file declares of some kinds, kind by kind. -/
def declaredIn (s : Store) (kinds : List Kind) (file : ElementId) : List ElementId :=
  kinds.flatMap (s.membersOf file)

/-- The elements that the files of a set declare of some kinds, file by file. -/
def declared (s : Store) (d : SetId) (kinds : List Kind) : List ElementId :=
  (s.files d).values.flatMap (s.declaredIn kinds)

/-- An index with more elements, each under its key. -/
def enter (s : Store) (index : Index) (es : List ElementId) : Index :=
  index.putAll (es.map fun e => (s.indexKey e, .element e))

/-- The index of a list of elements. -/
def indexOf (s : Store) (es : List ElementId) : Index := s.enter .empty es

/-- Writes elements into several indexes of a set. -/
def enterAll (s : Store) (d : SetId) (names : List String) (es : List ElementId) : Store :=
  es.foldl (fun s e => names.foldl (fun s name => s.putEntry d name (s.indexKey e) (.element e)) s) s

/-! ## Making the indexes -/

/-- The declared elements of a set, each followed by what it owns. -/
def indexed (s : Store) (d : SetId) : List ElementId :=
  (s.declared d (kindIndexes.map Prod.fst)).flatMap fun e => e :: s.owned e

/-- A set with its indexes of elements made anew. -/
def withElementIndexes (s : Store) (d : SetId) : Store :=
  kindIndexes.foldl
    (fun t (kind, name) => t.setIndex d name (s.indexOf (s.declared d [kind])))
    (s.setIndex d elementsIndex (s.indexOf (s.indexed d)))

end Store

/-- Makes the indexes of elements anew.  A set without source code gets an empty one. -/
def indexElements {ε : Type} (d : SetId) : Build ε Unit := do
  let s ← get
  match (s.docSet d).code with
  | none => set (s.setIndex d elementsIndex .empty)
  | some code =>
    set (s.withElementIndexes d)
    Build.debug "compiler.elements_index"
      ("Indexed " ++ toString ((s.indexOf (s.indexed d)).size) ++ " elements from "
        ++ toString code.files.size ++ " files")

end Docset
