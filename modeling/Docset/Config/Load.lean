/-
  Finding and reading a configuration on a disk.

  A configuration is asked for by a path: a directory stands for the configuration in it, and any
  other file for the configuration beside it.  Where there is none, everything stays at its default.
  A blank file, and a document that stands for nothing, are empty tables.

  What the text of a configuration stands for is left to a reader, which is a parameter.  If it finds
  fault with the form of the text, then the configuration is at fault; any other failure of the reader
  is passed on as it is.
-/
import Docset.Config
import Docset.Disk
import Docset.Value.Reader

namespace Docset

/-- Why a configuration was not loaded. -/
inductive LoadError
  | config (e : ConfigError)
  | disk (e : DiskError)
  /-- A number that cannot be written. -/
  | excess (e : Excess)
  /-- Another failure of the reader, in its own words. -/
  | reader (sort text : String)
  deriving DecidableEq, Repr

/-- What is told about it; disks refuse without a word. -/
def LoadError.message? : LoadError → Option String
  | config e => some e.message
  | disk e => e.message?
  | excess e => some e.message
  | reader _ text => some text

namespace Config

/-- The value of the text of a configuration. -/
def readValue (read : Reader) (text : String) : Except LoadError Value :=
  if Text.isAllBlank text then .ok (.table [])
  else
    match read text with
    | .ok .null => .ok (.table [])
    | .ok v => .ok v
    | .error (.malformed text) => .error (.config (.malformed text))
    | .error (.other sort text) => .error (.reader sort text)

/-- The place of the configuration that a location asks for. -/
def placeOf (disk : Disk) (asked : Location) : Except DiskError Location := do
  if ← disk.isDirectory asked then pure (asked.child fileName).normal
  else
    let place := if asked.name = fileName then asked else asked.parent.child fileName
    if place.hasNull then throw .nullName
    pure place.normal

/-- The configuration that a value stands for, in a project at `root`.  What has to be written is
written before the level is looked at, and the name of the log file is looked at last. -/
def ofDocument (root : Location) (v : Value) : Except LoadError Config := do
  if !(written v).all Value.isWritable then throw (.excess .written)
  let config ← (ofValue root v).mapError LoadError.config
  if (fileOf root v).any Location.hasNull then throw (.disk .nullName)
  pure config

/-- The configuration that a location asks for. -/
def load (read : Reader) (disk : Disk) (asked : Location) : Except LoadError Config := do
  let place ← (placeOf disk asked).mapError LoadError.disk
  if ← (disk.isThere place).mapError LoadError.disk then
    let text ← (disk.readText place).mapError LoadError.disk
    ofDocument place.parent (← readValue read text)
  else pure { root := place.parent }

end Config

end Docset
