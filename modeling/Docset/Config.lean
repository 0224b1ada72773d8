/-
  Configurations: what a project says about how its documentation is compiled.

  A configuration is read from a loose value, section by section.  What a section does not say, or says
  in a form that cannot be used, stays at its default; only two things are errors, a value that is no
  table at all and a log level that is not one of the known words.  The sections do not look at each
  other.
-/
import Docset.Disk.Location
import Docset.Journal.Level
import Docset.Value.Key
import Docset.Value.Text

namespace Docset

open Docset.Text

/-! ## Configurations -/

/-- How documentation is compiled. -/
structure Config where
  /-- The directory of the project. -/
  root : Location
  /-- Whether source text is kept. -/
  includeSource : Bool := false
  /-- The names of the passes to run; none means all of them. -/
  passes : List String := []
  /-- The word for the log level. -/
  level : String := "info"
  /-- The log file. -/
  file : Option Location := none
  deriving Repr, Inhabited

/-- Why a document is no configuration. -/
inductive ConfigError
  /-- It cannot be read; what its reader tells about it. -/
  | malformed (text : String)
  /-- It is no table. -/
  | notTable
  /-- It asks for a log level that is not known. -/
  | level (e : UnknownLevel)
  deriving DecidableEq, Repr

namespace Config

/-- The name of the file that a configuration stands in. -/
def fileName : String := ".doccompiler.yml"

/-- The settings that a documentation set is given before passes run over it. -/
def settings (c : Config) : List (String × Value) := [("include-source", .flag c.includeSource)]

end Config

/-- What is told about it. -/
def ConfigError.message : ConfigError → String
  | malformed text => "Failed to parse " ++ Config.fileName ++ ": " ++ text
  | notTable => Config.fileName ++ " must contain a mapping at the root"
  | level e => "Invalid logging.level in " ++ Config.fileName ++ ": " ++ e.message

/-! ## Reading -/

namespace Config

/-- The value under a word; null if nothing is there. -/
def entry (v : Value) (word : String) : Value := (v.field word).getD .null

/-- The words for yes, in lower case. -/
def yesWords : List String := ["true", "yes", "1"]

/-- The words for no, in lower case. -/
def noWords : List String := ["false", "no", "0"]

/-- The truth value that a value stands for. -/
def asFlag : Value → Option Bool
  | .flag b => some b
  | .text s =>
    let word := lower (trim s)
    if yesWords.contains word then some true
    else if noWords.contains word then some false
    else none
  | _ => none

/-- The name that an item of a list stands for: only a text, a number or a truth value is one. -/
def asName : Value → Option String
  | .text s => some s
  | .whole n => some (Value.shown (.whole n))
  | .real x => some (Value.shown (.real x))
  | .flag b => some (Value.shown (.flag b))
  | _ => none

/-- The items of a sequence.  A string of bytes is one too, of the numbers of its bytes. -/
def itemsOf : Value → List Value
  | .list items => items
  | .pair first second => [first, second]
  | .bytes content => content.map fun b => .whole b.toNat
  | _ => []

/-- The names that a value stands for. -/
def asNames : Value → List String
  | .text s => [s]
  | v => (itemsOf v).filterMap asName

/-- The word for a log level that a value stands for. -/
def asLevel (v : Value) : Except UnknownLevel String := do
  let word := lower (trim v.shown)
  let _ ← Level.resolve (.word word)
  pure word

/-- The place of the file that a value names, as it is written. -/
def asFile (root : Location) : Value → Option Location
  | .text s => if isAllBlank s then none else some (Location.ofText root (trim s))
  | _ => none

/-- Whether source text is kept. -/
def includeSourceOf (settings : Value) : Bool :=
  (asFlag (entry settings "include_source")).getD false

/-- The word for the log level. -/
def levelOf (logging : Value) : Except UnknownLevel String :=
  match entry logging "level" with
  | .null => .ok "info"
  | v => asLevel v

/-- The names of the passes. -/
def passesOf (v : Value) : List String := asNames (entry (entry v "compiler") "passes")

/-- The place of the log file, as it is written. -/
def fileOf (root : Location) (v : Value) : Option Location :=
  asFile root (entry (entry v "logging") "file")

/-- The values that are written as text: the items that are names of passes, and the log level. -/
def written (v : Value) : List Value :=
  let items := itemsOf (entry (entry v "compiler") "passes")
  entry (entry v "logging") "level" :: items.filter fun item => (asName item).isSome

/-- The configuration that a value stands for, in a project at `root`. -/
def ofValue (root : Location) : Value → Except ConfigError Config
  | .table rows => do
    let v : Value := .table rows
    -- The level is the only part that can be refused.
    let level ← (levelOf (entry v "logging")).mapError ConfigError.level
    pure {
      root := root
      includeSource := includeSourceOf (entry v "settings")
      passes := passesOf v
      level := level
      file := (fileOf root v).map Location.normal }
  | _ => .error .notTable

end Config

end Docset
