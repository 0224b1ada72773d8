/-
  The source text of files.

  A documentation set keeps the source text of its files only if its settings ask for it.
-/
import Docset.Store.Build

namespace Docset

/-- The setting that asks for source text. -/
def includeSourceSetting : String := "include-source"

/-- Whether the settings of a set ask for source text. -/
def DocSet.includesSource (set : DocSet) : Bool :=
  match set.settings.get? includeSourceSetting with
  | some value => value.countsAsYes
  | none => false

/-- Takes the source text out of files. -/
def Store.dropSources (s : Store) (files : List ElementId) : Store :=
  files.foldl (fun s file => s.updateElement file Element.withoutSource) s

/-- Takes the source text out of a set's files, unless its settings ask for it. -/
def removeSources {ε : Type} (d : SetId) : Build ε Unit := do
  let set := (← get).docSet d
  match set.code with
  | none => pure ()
  | some code =>
    if set.includesSource then pure ()
    else
      Build.change (·.dropSources code.files.values)
      Build.debug "compiler.remove_source"
        ("Removed source from " ++ toString code.files.size ++ " files")

end Docset
