/-
  A disk: a tree of directories and files.

  Files hold bytes.  A location is looked up name by name from the root, and each name but the last
  must be that of a directory, also where the next name is `..` and leads back up.  What may go wrong
  is a `DiskError`; a change that fails half-way leaves what it had done.
-/
import Docset.Disk.Location
import Docset.Ledger
import Docset.Text.Lines

namespace Docset

/-- What may stand at a place. -/
inductive Item
  | directory
  | file (content : ByteArray)

/-- Why a disk refuses. -/
inductive DiskError
  /-- Nothing is there. -/
  | missing
  /-- A name that should be a directory's is a file's. -/
  | notDirectory
  /-- A directory is there instead of a file. -/
  | isDirectory
  /-- Something is there already. -/
  | occupied
  /-- A name is too long, or all of them are together. -/
  | nameTooLong
  /-- A name holds a null character. -/
  | nullName
  /-- The bytes of a file are no text. -/
  | notText
  deriving DecidableEq, Repr

/-- What is told about it: most refusals go without a word. -/
def DiskError.message? : DiskError → Option String
  | nullName => some "embedded null byte"
  | _ => none

/-- A disk, by the places of its items below the root; the root is a directory. -/
structure Disk where
  /-- The items. -/
  items : Ledger (List String) Item
  deriving Inhabited

namespace Disk

/-- The disk with nothing on it. -/
def empty : Disk := ⟨.empty⟩

/-! ## Looking up -/

/-- The most bytes that a name may have. -/
def maxNameBytes : Nat := 255

/-- The most bytes that a written location may have. -/
def maxPathBytes : Nat := 4095

/-- The item at a place without `..`. -/
def item? (d : Disk) (place : List String) : Option Item :=
  if place = [] then some .directory else d.items.get? place

/-- Follows names from a place. -/
def walk (d : Disk) (here : List String) : List String → Except DiskError (List String)
  | [] => .ok here
  | name :: rest =>
    match d.item? here with
    | none => .error .missing
    | some (.file _) => .error .notDirectory
    | some .directory =>
      if maxNameBytes < name.utf8ByteSize then .error .nameTooLong
      else walk d (Location.step here name) rest

/-- The place that a location leads to, whether or not something is there. -/
def locate (d : Disk) (l : Location) : Except DiskError (List String) :=
  if l.hasNull then .error .nullName
  else if maxPathBytes < l.toText.utf8ByteSize then .error .nameTooLong
  else d.walk [] l.names

/-- The item that a location leads to. -/
def look (d : Disk) (l : Location) : Except DiskError Item := do
  match d.item? (← d.locate l) with
  | some item => .ok item
  | none => .error .missing

/-- Whether a directory is there.  A name that is too long cannot be asked about. -/
def isDirectory (d : Disk) (l : Location) : Except DiskError Bool :=
  match d.look l with
  | .ok .directory => .ok true
  | .ok (.file _) => .ok false
  | .error .nameTooLong => .error .nameTooLong
  | .error _ => .ok false

/-- Whether anything is there.  A name that is too long cannot be asked about. -/
def isThere (d : Disk) (l : Location) : Except DiskError Bool :=
  match d.look l with
  | .ok _ => .ok true
  | .error .nameTooLong => .error .nameTooLong
  | .error _ => .ok false

/-! ## Directories -/

/-- Makes one directory in a directory that is there. -/
def makeDirectory (d : Disk) (l : Location) : Except DiskError Disk := do
  let place ← d.locate l
  match d.item? place with
  | some _ => .error .occupied
  | none => .ok ⟨d.items.put place .directory⟩

/-- Whether a refusal to make a directory can be passed over, because one is there. -/
def settle (d : Disk) (l : Location) (e : DiskError) : Disk × Except DiskError Unit :=
  match d.isDirectory l with
  | .ok true => (d, .ok ())
  | .ok false => (d, .error e)
  | .error e => (d, .error e)

/-- Makes the directory whose names are given from the last to the first, with those above it. -/
def ensureUpward (d : Disk) : List String → Disk × Except DiskError Unit
  | [] => (d, .ok ())
  | name :: above =>
    let l : Location := ⟨(name :: above).reverse⟩
    match d.makeDirectory l with
    | .ok d => (d, .ok ())
    | .error .missing =>
      -- What is above is not there either: it is made first, and then this one again.
      match ensureUpward d above with
      | (d, .error e) => (d, .error e)
      | (d, .ok ()) =>
        match d.makeDirectory l with
        | .ok d => (d, .ok ())
        | .error .missing => (d, .error .missing)
        | .error e => settle d l e
    | .error e => settle d l e

/-- Makes a directory and those above it, unless it is there already. -/
def ensureDirectory (d : Disk) (l : Location) : Disk × Except DiskError Unit :=
  d.ensureUpward l.names.reverse

/-! ## Files -/

/-- Makes sure that a file is there to be written to. -/
def openFile (d : Disk) (l : Location) : Except DiskError Disk := do
  let place ← d.locate l
  match d.item? place with
  | some .directory => .error .isDirectory
  | some (.file _) => .ok d
  | none => .ok ⟨d.items.put place (.file .empty)⟩

/-- Writes a text at the end of a file that is there. -/
def append (d : Disk) (l : Location) (text : String) : Disk :=
  match d.locate l with
  | .ok place =>
    match d.item? place with
    | some (.file content) => ⟨d.items.put place (.file (content ++ text.toUTF8))⟩
    | _ => d
  | .error _ => d

/-- The text of a file, with unified line ends. -/
def readText (d : Disk) (l : Location) : Except DiskError String := do
  match ← d.look l with
  | .directory => .error .isDirectory
  | .file content =>
    match String.fromUTF8? content with
    | some text => .ok (Text.unifyBreaks text)
    | none => .error .notText

/-- The disk with a file of this content, in directories made for it. -/
def withFile (d : Disk) (l : Location) (content : ByteArray) : Disk :=
  let (d, _) := d.ensureDirectory l.parent
  ⟨d.items.put l.normal.names (.file content)⟩

/-- The disk with a directory, in directories made for it. -/
def withDirectory (d : Disk) (l : Location) : Disk := (d.ensureDirectory l).1

end Disk

end Docset
