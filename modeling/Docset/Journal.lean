/-
  The journal: where log records go.

  A journal has a level, a list of sinks, and what has been written so far: the messages on the
  console and the files on a disk.  `configure` replaces the level and the sinks of an earlier call,
  so sinks never pile up: after it there is one console, and one file at most.  A call that does not
  know its level changes nothing; one that cannot open its file leaves the console alone.

  A record counts for a logger if its level is positive and reaches the journal's.  A logger that does
  not belong to the journal takes warnings and worse instead, and so does a journal without a level.
  What a logger once answered for a level it answers until the journal gets its level anew, whatever
  loggers have come between.  A record that counts goes to the sinks; where there is none, or the
  logger does not belong to the journal, warnings and worse go to the console as bare messages.
-/
import Docset.Disk
import Docset.Journal.Level
import Docset.Journal.Logger
import Docset.Ledger

namespace Docset

/-! ## Journals -/

/-- Where records are written to. -/
inductive Sink
  | console
  | file (place : Location)
  deriving DecidableEq, Repr

/-- A journal and all that it has written. -/
structure Journal where
  /-- The level that a record must reach; 0 before any is set. -/
  level : Level
  /-- The sinks, in the order in which they get a record. -/
  sinks : List Sink
  /-- The messages written to the console. -/
  console : List String
  /-- The disk that log files are on. -/
  disk : Disk
  /-- The time of day, as lines of a log file give it. -/
  clock : String
  /-- The full names of the loggers that there are. -/
  loggers : List String
  /-- Whether a level counts for a logger, as far as asked since the journal got its level. -/
  answers : Ledger (String × Int) Bool
  deriving Inhabited

/-- Why a journal was not configured. -/
inductive JournalError
  | level (e : UnknownLevel)
  | disk (e : DiskError)
  deriving DecidableEq, Repr

namespace Journal

/-- A journal before any configuration. -/
def fresh (disk : Disk) (clock : String) : Journal where
  level := .number 0
  sinks := []
  console := []
  disk := disk
  clock := clock
  loggers := []
  answers := ∅

/-! ## Configuration -/

/-- Opens a log file in directories made for it. -/
def openLog (disk : Disk) (file : Location) : Disk × Except DiskError Unit :=
  match disk.ensureDirectory file.parent with
  | (disk, .error e) => (disk, .error e)
  | (disk, .ok ()) =>
    match disk.openFile file.normal with
    | .ok disk => (disk, .ok ())
    | .error e => (disk, .error e)

/-- Sets the level; what loggers answered before is forgotten. -/
def setLevel (j : Journal) (least : Level) : Journal := { j with level := least, answers := ∅ }

/-- Sets the level, and the sinks: the console, and the log file if one is given. -/
def configure (j : Journal) (level : LevelChoice) (file : Option Location) :
    Journal × Except JournalError Unit :=
  match Level.resolve level with
  | .error e => (j, .error (.level e))
  | .ok least =>
    let j := { j.setLevel least with sinks := [.console] }
    match file with
    | none => (j, .ok ())
    | some file =>
      match openLog j.disk file with
      | (disk, .ok ()) => ({ j with sinks := [.console, .file file.normal], disk := disk }, .ok ())
      | (disk, .error e) => ({ j with disk := disk }, .error (.disk e))

/-! ## Loggers -/

/-- Makes a logger, unless there is one of this name. -/
def enroll (j : Journal) (logger : String) : Journal :=
  let name := Logger.fullName logger
  if name ∈ j.loggers then j else { j with loggers := name :: j.loggers }

/-- Whether a logger belongs to the journal. -/
def holds (j : Journal) (logger : String) : Bool := Logger.belongs j.loggers logger

/-- The number that the level of a logger's record must reach. -/
def threshold (j : Journal) (logger : String) : Int :=
  if j.level.value ≠ 0 ∧ j.holds logger then j.level.value else Level.warning.value

/-- Whether a record of this level counts for a logger that is asked for the first time. -/
def accepts (j : Journal) (logger : String) (level : Level) : Bool :=
  0 < level.value ∧ j.threshold logger ≤ level.value

/-- What a logger answers for a level, and the journal that remembers it. -/
def ask (j : Journal) (logger : String) (level : Level) : Bool × Journal :=
  match j.answers.get? (logger, level.value) with
  | some answer => (answer, j)
  | none =>
    let answer := j.accepts logger level
    (answer, { j with answers := j.answers.put (logger, level.value) answer })

/-! ## Records -/

/-- A record as the console shows it. -/
def consoleLine (level : Level) (text : String) : String :=
  "[" ++ Logger.rootName ++ "] " ++ Level.name level ++ " " ++ text

/-- A record as a log file shows it. -/
def fileLine (clock logger : String) (level : Level) (text : String) : String :=
  clock ++ " " ++ Level.name level ++ " " ++ Logger.fullName logger ++ ": " ++ text ++ "\n"

/-- Hands a record to one sink. -/
def write (logger : String) (level : Level) (text : String) (j : Journal) : Sink → Journal
  | .console => { j with console := j.console ++ [consoleLine level text] }
  | .file place => { j with disk := j.disk.append place (fileLine j.clock logger level text) }

/-- Hands a record that counts to the sinks; where it finds none, a warning or worse goes to the console
as a bare message. -/
def deliver (j : Journal) (logger : String) (level : Level) (text : String) : Journal :=
  if j.holds logger && !j.sinks.isEmpty then j.sinks.foldl (write logger level text) j
  else if Level.warning.value ≤ level.value then { j with console := j.console ++ [text] }
  else j

/-- Records a message. -/
def record (j : Journal) (logger : String) (level : Level) (text : String) : Journal :=
  let (counts, j) := (j.enroll logger).ask logger level
  if counts then j.deliver logger level text else j

end Journal

end Docset
