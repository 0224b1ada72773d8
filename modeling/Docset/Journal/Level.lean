/-
  Levels of log records.

  A level is a number, or a truth value that counts as one, and a record counts if its level is high
  enough.  Five numbers have names of their own in records; four of them can be asked for by a word, in
  any case and with white space around it.
-/
import Docset.Text.Blank
import Docset.Text.LowerCase
import Docset.Text.Quoted

namespace Docset

open Docset.Text

/-- The level of a record, or the least level of a journal. -/
inductive Level
  | number (n : Int)
  | flag (b : Bool)
  deriving DecidableEq, Repr, Inhabited

/-! ## Levels by word -/

/-- A level as it is asked for. -/
inductive LevelChoice
  | word (text : String)
  | level (l : Level)
  deriving DecidableEq, Repr

/-- A word that names no level. -/
structure UnknownLevel where
  /-- The word. -/
  word : String
  deriving DecidableEq, Repr

namespace Level

def debug : Level := .number 10
def info : Level := .number 20
def warning : Level := .number 30
def error : Level := .number 40

/-- The words, in ascending order of their levels. -/
def words : List (String × Level) :=
  [("debug", debug), ("info", info), ("warning", warning), ("error", error)]

/-- The level of a word in the form that `words` lists. -/
def ofWord? (word : String) : Option Level := (words.find? (·.1 == word)).map Prod.snd

/-- A word in the form that `words` lists. -/
def plainWord (word : String) : String := lower (trim word)

/-- The level asked for. -/
def resolve : LevelChoice → Except UnknownLevel Level
  | .level l => .ok l
  | .word text =>
    match ofWord? (plainWord text) with
    | some l => .ok l
    | none => .error ⟨text⟩

/-! ## Levels in records -/

/-- The number that a level counts as. -/
def value : Level → Int
  | number n => n
  | flag b => if b then 1 else 0

/-- The name of a level in records. -/
def name : Level → String
  | number n =>
    if n = 50 then "CRITICAL"
    else if n = error.value then "ERROR"
    else if n = warning.value then "WARNING"
    else if n = info.value then "INFO"
    else if n = debug.value then "DEBUG"
    else "Level " ++ toString n
  | flag b => "Level " ++ (if b then "True" else "False")

end Level

/-- What is told about the word. -/
def UnknownLevel.message (e : UnknownLevel) : String :=
  "Unknown log level " ++ quoted e.word ++ "; expected one of "
    ++ String.intercalate ", " (Level.words.map Prod.fst)

end Docset
