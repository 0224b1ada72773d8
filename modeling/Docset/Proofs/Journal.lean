/-
  The sinks of a journal.

  A journal is configured again and again, with levels that may be unknown and log files that may not open, and
  records come in between.  What holds at any time is settled by ONE call, the latest whose level was known.

  1. `configure` puts the new sinks in place of the old ones.  It does what taking away the old sinks one by
     one and adding the new ones would do (`configureInTurn_eq`), whatever sinks there were.
  2. A call with an unknown level changes nothing (`configure_of_unknown`); a call with a known one sets the
     level, puts the console first, and the log file behind it exactly if it was named and opened
     (`configure_of_known`).
  3. Nothing else touches level or sinks, and the log file stays where it was opened (`SetBy.record`).
  4. Hence, by induction on the events, `after_outcome`: the sinks never pile up, none survives a later call, and
     a record that counts goes to the console once, to the log file once, and nowhere else.
-/
import Mathlib.Data.List.Induction
import Docset.Journal
import Docset.Proofs.Disk
import Docset.Proofs.Level

namespace Docset.Journal

/-! ## Sinks one by one -/

/-- Takes a sink away. -/
def dismiss (j : Journal) (s : Sink) : Journal := { j with sinks := j.sinks.erase s }

/-- Adds a sink behind the others. -/
def attach (j : Journal) (s : Sink) : Journal := { j with sinks := j.sinks ++ [s] }

/-- Sets the level, takes away one sink after the other, and adds the console. -/
def restart (j : Journal) (least : Level) : Journal :=
  (j.sinks.foldl dismiss (j.setLevel least)).attach .console

/-- Sets the level and the sinks, one sink at a time. -/
def configureInTurn (j : Journal) (level : LevelChoice) (file : Option Location) :
    Journal × Except JournalError Unit :=
  match Level.resolve level with
  | .error e => (j, .error (.level e))
  | .ok least =>
    match file with
    | none => (j.restart least, .ok ())
    | some file =>
      match openLog j.disk file with
      | (disk, .ok ()) => ({ j.restart least with disk := disk }.attach (.file file.normal), .ok ())
      | (disk, .error e) => ({ j.restart least with disk := disk }, .error (.disk e))

/-- Whoever takes away one sink after the other is left with none. -/
theorem foldl_dismiss (j : Journal) : j.sinks.foldl dismiss j = { j with sinks := [] } := by
  cases j with
  | mk level sinks console disk clock loggers answers =>
    show sinks.foldl dismiss _ = _
    induction sinks with
    | nil => rfl
    | cons s rest ih =>
      rw [List.foldl_cons]
      have hfirst : dismiss ⟨level, s :: rest, console, disk, clock, loggers, answers⟩ s =
          ⟨level, rest, console, disk, clock, loggers, answers⟩ := by
        rw [dismiss, List.erase_cons_head]
      rw [hfirst]
      exact ih

theorem restart_eq (j : Journal) (least : Level) :
    j.restart least = { j.setLevel least with sinks := [.console] } := by
  have hnone : j.sinks.foldl dismiss (j.setLevel least) = { j.setLevel least with sinks := [] } :=
    foldl_dismiss (j.setLevel least)
  rw [restart, hnone]
  rfl

/-- Setting all sinks at once is the same. -/
theorem configureInTurn_eq (j : Journal) (level : LevelChoice) (file : Option Location) :
    j.configureInTurn level file = j.configure level file := by
  rw [configureInTurn, configure]
  cases Level.resolve level with
  | error e => rfl
  | ok least =>
    dsimp only
    rw [restart_eq]
    cases file with
    | none => rfl
    | some file => rfl

/-! ## Calls -/

/-- The log file that a call opens: none if none is named, and none if it fails. -/
def opened (j : Journal) (level : LevelChoice) (file : Option Location) : Option Location :=
  match (j.configure level file).2 with
  | .ok () => file.map Location.normal
  | .error _ => none

/-- The sinks of a journal are the console and, if there is one, a log file that is held. -/
structure Sends (file : Option Location) (j : Journal) : Prop where
  sinks_eq : j.sinks = .console :: (file.map Sink.file).toList
  held : ∀ f ∈ file, j.disk.HoldsFile f

/-- What the latest call with a known level has made of a journal. -/
structure SetBy (level : LevelChoice) (file : Option Location) (j : Journal) : Prop
    extends Sends file j where
  level_eq : Level.resolve level = .ok j.level

/-- A call with an unknown level fails and changes nothing. -/
theorem configure_of_unknown (j : Journal) {level : LevelChoice} (h : ¬ level.IsKnown)
    (file : Option Location) : ∃ e, j.configure level file = (j, .error (.level e)) := by
  obtain ⟨e, he⟩ := Level.resolve_of_not_isKnown h
  refine ⟨e, ?_⟩
  rw [configure, he]

theorem holdsFile_of_openLog {disk disk' : Disk} {file : Location}
    (h : openLog disk file = (disk', .ok ())) : disk'.HoldsFile file.normal := by
  rw [openLog] at h
  split at h
  · cases h
  · split at h
    · rename_i hopen
      obtain rfl := (Prod.mk.inj h).1
      exact Disk.HoldsFile.of_openFile (Location.dotdot_not_mem_normal file) hopen
    · cases h

/-- What a call with a known level can do: it sets the level and puts the console first, and then either opens
the log file, if one is named, or fails on it. -/
theorem configure_of_known (j : Journal) {level : LevelChoice} {least : Level}
    (h : Level.resolve level = .ok least) (file : Option Location) :
    (∃ disk, (∀ f ∈ file.map Location.normal, disk.HoldsFile f) ∧ j.configure level file =
      ({ j.setLevel least with
        sinks := .console :: ((file.map Location.normal).map Sink.file).toList, disk := disk }, .ok ())) ∨
    ∃ disk e, file ≠ none ∧ j.configure level file =
      ({ j.setLevel least with sinks := [.console], disk := disk }, .error (.disk e)) := by
  rw [configure, h]
  cases file with
  | none => exact Or.inl ⟨j.disk, nofun, rfl⟩
  | some file =>
    cases hopen : openLog j.disk file with
    | mk disk outcome =>
      cases outcome with
      | ok u =>
        refine Or.inl ⟨disk, fun f hf => ?_, ?_⟩
        · obtain rfl := Option.some.inj hf
          exact holdsFile_of_openLog hopen
        · simp only [setLevel, hopen]
          rfl
      | error e =>
        refine Or.inr ⟨disk, e, nofun, ?_⟩
        simp only [setLevel, hopen]

/-- A call with a known level settles the level and the sinks. -/
theorem SetBy.of_configure (j : Journal) {level : LevelChoice} (h : level.IsKnown)
    (file : Option Location) : SetBy level (j.opened level file) (j.configure level file).1 := by
  obtain ⟨least, hleast⟩ := Level.resolve_isOk_iff.2 h
  rcases configure_of_known j hleast file with ⟨disk, hheld, hcall⟩ | ⟨disk, e, -, hcall⟩
  · rw [opened, hcall]
    exact ⟨⟨rfl, hheld⟩, hleast⟩
  · rw [opened, hcall]
    exact ⟨⟨rfl, nofun⟩, hleast⟩

/-- A call with a known level fails only on the log file. -/
theorem disk_of_configure_error (j : Journal) {level : LevelChoice} (h : level.IsKnown)
    {file : Option Location} {e : JournalError} (he : (j.configure level file).2 = .error e) :
    file ≠ none ∧ ∃ d, e = .disk d := by
  obtain ⟨least, hleast⟩ := Level.resolve_isOk_iff.2 h
  rcases configure_of_known j hleast file with ⟨disk, -, hcall⟩ | ⟨disk, d, hfile, hcall⟩
  · rw [hcall] at he
    cases he
  · rw [hcall] at he
    exact ⟨hfile, d, (Except.error.inj he).symm⟩

/-! ## Records -/

section Record

variable (j : Journal) (logger : String) (l : Level) (text : String)

/-- Writing changes neither level nor sinks. -/
theorem foldl_write (sinks : List Sink) : (sinks.foldl (write logger l text) j).level = j.level ∧
    (sinks.foldl (write logger l text) j).sinks = j.sinks := by
  induction sinks generalizing j with
  | nil => exact ⟨rfl, rfl⟩
  | cons s rest ih =>
    obtain ⟨hlevel, hsinks⟩ := ih (write logger l text j s)
    rw [List.foldl_cons, hlevel, hsinks]
    cases s <;> exact ⟨rfl, rfl⟩

theorem holdsFile_foldl_write {f : Location} (sinks : List Sink) (h : j.disk.HoldsFile f) :
    (sinks.foldl (write logger l text) j).disk.HoldsFile f := by
  induction sinks generalizing j with
  | nil => exact h
  | cons s rest ih =>
    refine ih (write logger l text j s) ?_
    cases s with
    | console => exact h
    | file place => exact h.append place _

/-- The journal that has answered whether a record counts, before it delivers it. -/
def asked : Journal := ((j.enroll logger).ask logger l).2

/-- Whether a record counts for a logger that belongs to the journal. -/
def Takes : Prop := (j.enroll logger).holds logger = true ∧ ((j.enroll logger).ask logger l).1 = true

theorem record_eq : j.record logger l text =
    if ((j.enroll logger).ask logger l).1 then (j.asked logger l).deliver logger l text
    else j.asked logger l :=
  rfl

/-- Asking takes note of the logger and of the answer, and of nothing else. -/
theorem asked_eq : ∃ answers,
    j.asked logger l = { j with loggers := (j.enroll logger).loggers, answers := answers } := by
  have henroll : j.enroll logger = { j with loggers := (j.enroll logger).loggers } := by
    simp only [enroll]
    split <;> rfl
  have hask : ∃ answers, j.asked logger l = { j.enroll logger with answers := answers } := by
    rw [asked, ask]
    split
    · exact ⟨(j.enroll logger).answers, rfl⟩
    · exact ⟨_, rfl⟩
  obtain ⟨answers, hanswers⟩ := hask
  refine ⟨answers, ?_⟩
  rw [hanswers, henroll]

/-- Delivering changes neither level nor sinks, and files that are held are held. -/
theorem deliver_keeps : (j.deliver logger l text).level = j.level ∧
    (j.deliver logger l text).sinks = j.sinks ∧
    ∀ f, j.disk.HoldsFile f → (j.deliver logger l text).disk.HoldsFile f := by
  rw [deliver]
  split
  · obtain ⟨hlevel, hsinks⟩ := foldl_write j logger l text j.sinks
    exact ⟨hlevel, hsinks, fun f hf => holdsFile_foldl_write j logger l text j.sinks hf⟩
  · split
    · exact ⟨rfl, rfl, fun _ hf => hf⟩
    · exact ⟨rfl, rfl, fun _ hf => hf⟩

/-- A record changes neither level nor sinks, and files that are held are held. -/
theorem record_keeps : (j.record logger l text).level = j.level ∧
    (j.record logger l text).sinks = j.sinks ∧
    ∀ f, j.disk.HoldsFile f → (j.record logger l text).disk.HoldsFile f := by
  obtain ⟨answers, hasked⟩ := asked_eq j logger l
  rw [record_eq]
  split
  · have hkeeps := deliver_keeps (j.asked logger l) logger l text
    rw [hasked] at hkeeps ⊢
    exact hkeeps
  · rw [hasked]
    exact ⟨rfl, rfl, fun _ hf => hf⟩

variable {j} in
theorem SetBy.record {level : LevelChoice} {file : Option Location} (h : SetBy level file j) :
    SetBy level file (j.record logger l text) := by
  obtain ⟨hlevel, hsinks, hheld⟩ := record_keeps j logger l text
  exact ⟨⟨by rw [hsinks, h.sinks_eq], fun f hf => hheld f (h.held f hf)⟩, by rw [hlevel, h.level_eq]⟩

variable {j logger l} in
/-- A record that does not count is written nowhere. -/
theorem record_of_not_counts (h : ((j.enroll logger).ask logger l).1 = false) :
    (j.record logger l text).console = j.console ∧ (j.record logger l text).disk = j.disk := by
  obtain ⟨answers, hasked⟩ := asked_eq j logger l
  rw [record_eq, h, if_neg Bool.false_ne_true, hasked]
  exact ⟨rfl, rfl⟩

/-- Whether a record stands once on the console and once in the file, if there is one, and nowhere else. -/
structure WrittenOnce (file : Option Location) (j k : Journal) (logger : String) (l : Level)
    (text : String) : Prop where
  console_eq : k.console = j.console ++ [consoleLine l text]
  file_eq : ∀ f ∈ file, ∃ content, j.disk.item? f.names = some (.file content) ∧
    k.disk.item? f.names = some (.file (content ++ (fileLine j.clock logger l text).toUTF8))
  others_eq : ∀ place, (∀ f ∈ file, place ≠ f.names) → k.disk.item? place = j.disk.item? place

variable {j logger l} in
/-- A record that counts is written to each sink once. -/
theorem Sends.writtenOnce {file : Option Location} (h : Sends file j)
    (htakes : j.Takes logger l) : WrittenOnce file j (j.record logger l text) logger l text := by
  obtain ⟨answers, hasked⟩ := asked_eq j logger l
  have hrecord : j.record logger l text =
      j.sinks.foldl (write logger l text)
        { j with loggers := (j.enroll logger).loggers, answers := answers } := by
    have hholds : (j.asked logger l).holds logger = true := by
      rw [hasked]
      exact htakes.1
    have hsinks : (j.asked logger l).sinks = j.sinks := by rw [hasked]
    have hsome : j.sinks.isEmpty = false := by rw [h.sinks_eq]; rfl
    rw [record_eq, if_pos htakes.2, deliver, hholds, hsinks, hsome, hasked]
    rfl
  rw [hrecord, h.sinks_eq]
  cases file with
  | none => exact ⟨rfl, nofun, fun _ _ => rfl⟩
  | some f =>
    obtain ⟨hcontent, hothers⟩ := (h.held f rfl).item?_append (fileLine j.clock logger l text)
    refine ⟨rfl, fun g hg => ?_, fun place hplace => hothers place (hplace f rfl)⟩
    obtain rfl := Option.some.inj hg
    exact hcontent

end Record

/-! ## Events -/

/-- What happens to a journal: a call that configures it, or a record. -/
inductive Event
  | configure (level : LevelChoice) (file : Option Location)
  | record (logger : String) (level : Level) (text : String)

/-- Whether an event is a call whose level is known. -/
def Event.Reconfigures : Event → Prop
  | .configure level _ => level.IsKnown
  | .record _ _ _ => False

/-- The journal after an event. -/
def step (j : Journal) : Event → Journal
  | .configure level file => (j.configure level file).1
  | .record logger level text => j.record logger level text

/-- The journal after some events. -/
def after (j : Journal) (events : List Event) : Journal := events.foldl step j

/-- An event that is no call with a known level changes neither level nor sinks. -/
theorem step_of_not_reconfigures (j : Journal) {event : Event} (h : ¬ event.Reconfigures) :
    (j.step event).level = j.level ∧ (j.step event).sinks = j.sinks := by
  cases event with
  | configure level file =>
    obtain ⟨e, he⟩ := configure_of_unknown j h file
    rw [step, he]
    exact ⟨rfl, rfl⟩
  | record logger level text =>
    obtain ⟨hlevel, hsinks, -⟩ := record_keeps j logger level text
    exact ⟨hlevel, hsinks⟩

theorem SetBy.step {j : Journal} {level : LevelChoice} {file : Option Location} (h : SetBy level file j)
    {event : Event} (hevent : ¬ event.Reconfigures) : SetBy level file (j.step event) := by
  cases event with
  | configure level' file' =>
    obtain ⟨e, he⟩ := configure_of_unknown j hevent file'
    rw [Journal.step, he]
    exact h
  | record logger l text => exact h.record logger l text

/-- The latest call with a known level, of those among the events, has made the journal what it is. -/
theorem setBy_after (j : Journal) (events : List Event) :
    (∀ event ∈ events, ¬ event.Reconfigures) ∧ (j.after events).level = j.level ∧
        (j.after events).sinks = j.sinks ∨
      ∃ before level file later, events = before ++ .configure level file :: later ∧
        level.IsKnown ∧ (∀ event ∈ later, ¬ event.Reconfigures) ∧
        SetBy level ((j.after before).opened level file) (j.after events) := by
  induction events using List.reverseRecOn with
  | nil => exact Or.inl ⟨nofun, rfl, rfl⟩
  | append_singleton events event ih =>
    have hstep : j.after (events ++ [event]) = (j.after events).step event := by
      rw [after, List.foldl_append]
      rfl
    rw [hstep]
    by_cases hevent : event.Reconfigures
    · cases event with
      | configure level file =>
        exact Or.inr ⟨events, level, file, [], rfl, hevent, nofun, .of_configure _ hevent file⟩
      | record logger level text => exact hevent.elim
    · rcases ih with ⟨hnone, hlevel, hsinks⟩ | ⟨before, level, file, later, rfl, hknown, hlater, hset⟩
      · obtain ⟨hlevel', hsinks'⟩ := step_of_not_reconfigures (j.after events) hevent
        refine Or.inl ⟨?_, by rw [hlevel', hlevel], by rw [hsinks', hsinks]⟩
        rw [List.forall_mem_append]
        exact ⟨hnone, List.forall_mem_singleton.2 hevent⟩
      · refine Or.inr ⟨before, level, file, later ++ [event], ?_, hknown, ?_, hset.step hevent⟩
        · rw [List.append_assoc, List.cons_append]
        · rw [List.forall_mem_append]
          exact ⟨hlater, List.forall_mem_singleton.2 hevent⟩

/-- **The theorem.**  Before the first call with a known level, the level and the sinks are those of the
start.  From then on, the latest of them decides, whatever calls and records there were: the level is
its own, the console is the first sink, and the only other one is the log file that this call named
and opened; a record that counts is written to each sink once and changes nothing else.  A call fails exactly
if its level is unknown, and then changes nothing, or if its log file does not open. -/
theorem after_outcome (j : Journal) (events : List Event) :
    (((∀ event ∈ events, ¬ event.Reconfigures) ∧ (j.after events).level = j.level ∧
        (j.after events).sinks = j.sinks) ∨
      ∃ before level file later, events = before ++ .configure level file :: later ∧
        level.IsKnown ∧ (∀ event ∈ later, ¬ event.Reconfigures) ∧
        Level.resolve level = .ok (j.after events).level ∧
        (j.after events).sinks =
          .console :: (((j.after before).opened level file).map Sink.file).toList ∧
        ∀ logger l text, (j.after events).Takes logger l →
          WrittenOnce ((j.after before).opened level file) (j.after events)
            ((j.after events).record logger l text) logger l text) ∧
    ∀ level file,
      (¬ level.IsKnown → ∃ e, (j.after events).configure level file = (j.after events, .error (.level e))) ∧
      (level.IsKnown → ∀ e, ((j.after events).configure level file).2 = .error e →
        file ≠ none ∧ ∃ d, e = .disk d) := by
  refine ⟨?_, fun level file => ⟨fun h => configure_of_unknown _ h file,
    fun h e he => disk_of_configure_error _ h he⟩⟩
  rcases setBy_after j events with hnone | ⟨before, level, file, later, hevents, hknown, hlater, hset⟩
  · exact Or.inl hnone
  · exact Or.inr ⟨before, level, file, later, hevents, hknown, hlater, hset.level_eq, hset.sinks_eq,
      fun logger l text htakes => hset.toSends.writtenOnce text htakes⟩

-- The log file of the second call would stand below that of the first, so it does not open.
example : ((fresh .empty "12:00").after [.configure (.word "info") (some ⟨["log"]⟩),
    .configure (.word " DEBUG ") (some ⟨["log", "x"]⟩), .configure (.word "loud") none]).sinks = [.console] := by
  decide

example : ((fresh .empty "12:00").after [.configure (.word "info") (some ⟨["a", "..", "log"]⟩),
    .configure (.word "loud") none]).Takes "pass" Level.info := ⟨by decide, by decide⟩

end Docset.Journal
