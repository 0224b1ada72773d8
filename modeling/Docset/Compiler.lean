/-
  The compiler: which passes run, and in which order.

  Passes are told apart by priority and by description, and no two may share either
  (`checkUnique_eq_ok_iff`).  So the order of running, by falling priority, does not depend on the
  order in which passes are given.  A failing pass ends the run; what the passes before it did stays done.
-/
import Docset.Config
import Docset.Pass

namespace Docset

open Docset.Text

/-! ## Choosing passes -/

/-- Why passes make no compiler. -/
inductive PlanError
  /-- Names of no pass of the library, in lower case and ascending order. -/
  | unknownPasses (names : List String)
  /-- Two sorts of pass with one priority. -/
  | samePriority (first second : String) (priority : Int)
  /-- Two sorts of pass with one description. -/
  | sameDescription (first second description : String)
  deriving DecidableEq, Repr

/-- What is told about it. -/
def PlanError.message : PlanError → String
  | .unknownPasses names => "Unknown compiler passes requested: " ++ String.intercalate ", " names
  | .samePriority first second priority =>
    "Compiler passes " ++ first ++ " and " ++ second ++ " share priority " ++ toString priority
  | .sameDescription first second description =>
    "Compiler passes " ++ first ++ " and " ++ second ++ " share description " ++ quoted description

/-- The names that are wanted, in lower case, each once. -/
def wantedNames (enabled : List String) : List String := (enabled.map lower).eraseDups

/-- The passes of the library, or those of them that are enabled; letter case does not matter. -/
def discoverPasses : Option (List String) → Except PlanError (List Pass)
  | none => .ok Pass.builtin
  | some enabled =>
    let wanted := wantedNames enabled
    match wanted.filter fun name => !(Pass.builtin.any (·.name == name)) with
    | [] => .ok (Pass.builtin.filter fun p => wanted.contains p.name)
    | missing => .error (.unknownPasses (missing.mergeSort fun a b => decide (a ≤ b)))

/-- Whether two passes can be told apart, by priority as well as by description. -/
def Pass.Differ (p q : Pass) : Prop := p.priority ≠ q.priority ∧ p.description ≠ q.description

instance : DecidableRel Pass.Differ := fun p q =>
  inferInstanceAs (Decidable (p.priority ≠ q.priority ∧ p.description ≠ q.description))

/-- Checks passes one by one against those accepted before them. -/
def checkAgainst (accepted : List Pass) : List Pass → Except PlanError Unit
  | [] => .ok ()
  | p :: rest =>
    match accepted.find? (·.priority == p.priority) with
    | some other => .error (.samePriority other.sort p.sort p.priority)
    | none =>
      match accepted.find? (·.description == p.description) with
      | some other => .error (.sameDescription other.sort p.sort p.description)
      | none => checkAgainst (accepted ++ [p]) rest

/-- Checks that no two passes share a priority or a description. -/
def checkUnique (passes : List Pass) : Except PlanError Unit := checkAgainst [] passes

theorem checkAgainst_eq_ok_iff {accepted rest : List Pass} :
    checkAgainst accepted rest = .ok () ↔
      (∀ p ∈ rest, ∀ q ∈ accepted, q.Differ p) ∧ rest.Pairwise Pass.Differ := by
  induction rest generalizing accepted with
  | nil => simp [checkAgainst]
  | cons p rest ih =>
    have hclash : (accepted.find? (·.priority == p.priority) = none ∧
        accepted.find? (·.description == p.description) = none) ↔ ∀ q ∈ accepted, q.Differ p := by
      simp only [List.find?_eq_none, beq_iff_eq, Pass.Differ]
      exact ⟨fun h q hq => ⟨h.1 q hq, h.2 q hq⟩, fun h => ⟨fun q hq => (h q hq).1, fun q hq => (h q hq).2⟩⟩
    rw [List.pairwise_cons, checkAgainst]
    cases hp : accepted.find? (·.priority == p.priority) with
    | some other =>
      refine iff_of_false (by simp) fun h => ?_
      have := (hclash.2 (h.1 p (by simp))).1
      rw [hp] at this
      cases this
    | none =>
      cases hd : accepted.find? (·.description == p.description) with
      | some other =>
        refine iff_of_false (by simp) fun h => ?_
        have := (hclash.2 (h.1 p (by simp))).2
        rw [hd] at this
        cases this
      | none =>
        have hfree := hclash.1 ⟨hp, hd⟩
        simp only [ih]
        constructor
        · rintro ⟨hrest, hpairs⟩
          refine ⟨fun r hr q hq => ?_, fun r hr => hrest r hr p (by simp), hpairs⟩
          rcases List.mem_cons.1 hr with rfl | hr
          · exact hfree q hq
          · exact hrest r hr q (by simp [hq])
        · rintro ⟨hall, hfirst, hpairs⟩
          refine ⟨fun r hr q hq => ?_, hpairs⟩
          rcases List.mem_append.1 hq with hq | hq
          · exact hall r (by simp [hr]) q hq
          · obtain rfl := List.mem_singleton.1 hq
            exact hfirst r hr

/-- Passes are accepted exactly if any two of them can be told apart. -/
theorem checkUnique_eq_ok_iff {passes : List Pass} :
    checkUnique passes = .ok () ↔ passes.Pairwise Pass.Differ := by
  simp [checkUnique, checkAgainst_eq_ok_iff]

/-- Passes in the order of running: by falling priority. -/
def runningOrder (passes : List Pass) : List Pass :=
  passes.mergeSort fun p q => decide (q.priority ≤ p.priority)

/-! ## Running -/

/-- A pass that failed, and why. -/
structure CompileError where
  /-- The words under which the pass was announced. -/
  title : String
  /-- Why it failed. -/
  cause : PassFailure
  deriving DecidableEq, Repr

/-- What is told about it. -/
def CompileError.message (e : CompileError) : String :=
  "Compiler pass '" ++ e.title ++ "' failed: " ++ e.cause.message

/-- The name of the logger. -/
def compileLogger : String := "compiler"

/-- Announces a pass and runs it; a failure is recorded too. -/
def runPass (p : Pass) (d : SetId) : Build CompileError (Option SetId) := fun s =>
  -- The announcement stands before all that the pass itself records.
  match p.run d (s.record compileLogger Level.info p.title) with
  | .ok next s => .ok next s
  | .error cause s =>
    .error ⟨p.title, cause⟩ (s.record compileLogger Level.error
      ("Compiler pass failed: " ++ p.title ++ " (" ++ cause.message ++ ")"))

/-- Runs passes one after another, each on the set that the one before goes on with. -/
def runPasses (d : SetId) : List Pass → Build CompileError SetId
  | [] => pure d
  | p :: rest => do
    let next ← runPass p d
    runPasses (next.getD d) rest

/-- A compiler: passes of which no two share a priority or a description. -/
structure Compiler where
  /-- The passes, as they were given. -/
  given : List Pass
  /-- Any two of them can be told apart. -/
  distinct : given.Pairwise Pass.Differ

namespace Compiler

/-- The compiler of given passes. -/
def ofPasses (passes : List Pass) : Except PlanError Compiler :=
  match h : checkUnique passes with
  | .ok () => .ok ⟨passes, checkUnique_eq_ok_iff.1 h⟩
  | .error e => .error e

/-- The compiler of all passes of the library. -/
def standard : Compiler := ⟨Pass.builtin, by decide⟩

/-- The compiler of the enabled passes of the library. -/
def ofEnabled (enabled : Option (List String)) : Except PlanError Compiler := do
  ofPasses (← discoverPasses enabled)

/-- The passes in the order of running. -/
def passes (c : Compiler) : List Pass := runningOrder c.given

/-- Runs the passes over a set, after the settings of a configuration are written into it; the set
that came out. -/
def compile (c : Compiler) (d : SetId) (config : Option Config) : Build CompileError SetId := do
  if let some config := config then
    Build.change (·.updateSet d fun set =>
      { set with settings := set.settings.putAll config.settings })
  runPasses d c.passes

end Compiler

/-! ## Configured compilers -/

/-- Why a configuration makes no compiler. -/
inductive SetupError
  | journal (e : JournalError)
  | plan (e : PlanError)
  deriving DecidableEq, Repr

/-- The compiler of the passes that a configuration enables.  The journal is set up first, and stays
so if the passes make no compiler. -/
def Compiler.ofConfig (config : Config) : Build SetupError Compiler := fun s =>
  let (journal, outcome) := s.journal.configure (.word config.level) config.file
  let s := { s with journal := journal }
  match outcome with
  | .error e => .error (.journal e) s
  | .ok () =>
    match ofEnabled (if config.passes.isEmpty then none else some config.passes) with
    | .error e => .error (.plan e) s
    | .ok c => .ok c s

end Docset
