/-
  A run of a compiler, call by call.

  A pass is an arbitrary step: it may change anything, go on with another set, answer with none, or fail
  half-way.  What a compiler makes of such passes is told by the CALLS of the run, that is, which pass was
  called on which set, and what it answered; and by the DEEDS that lead from the first store to the last,
  that is, the calls and the lines that the compiler itself writes into the journal between them.

  **The theorem** (`Compiler.compile_calls`) says of every compiler and every set which calls there are, on
  which sets, with which lines, and how the run ends.

  1. A line (`Store.tells_record`): the journal gets one record, and where that counts, the console shows it
     once and the log file holds it once.
  2. One step (`runPass_deeds`): a line, the call, and a line more if it fails; nothing else is done.
  3. A run (`runPasses_calls`), by induction on the passes: the calls of the rest come after the first call,
     on the set that it hands on (`handedOn_cons`), and there are none if the first call fails.
  4. The passes come by falling priority (`Compiler.passes_descending`), and so do their calls.
-/
import Docset.Proofs.Journal
import Docset.Proofs.Order

namespace Docset

/-! ## Calls and deeds -/

/-- A pass that was called. -/
structure PassCall where
  /-- Which one. -/
  pass : Pass
  /-- On which set. -/
  set : SetId
  /-- What it answered. -/
  answer : Except PassFailure (Option SetId)

namespace PassCall

/-- The pass did not fail. -/
def Succeeds (c : PassCall) : Prop := ∃ next, c.answer = .ok next

/-- The set that the pass answered with. -/
def next? (c : PassCall) : Option SetId :=
  match c.answer with
  | .ok next => next
  | .error _ => none

/-- The call leads from one store to another. -/
def Leads (c : PassCall) (s t : Store) : Prop :=
  match c.answer with
  | .ok next => c.pass.run c.set s = .ok next t
  | .error cause => c.pass.run c.set s = .error cause t

end PassCall

/-- The set that calls hand on: the last one that a pass answered with, or else the first. -/
def handedOn (d : SetId) (calls : List PassCall) : SetId := (calls.filterMap PassCall.next?).getLastD d

/-- What is done in a run. -/
inductive Deed
  /-- The compiler writes a line into the journal. -/
  | line (level : Level) (text : String)
  /-- A pass is called. -/
  | call (c : PassCall)

/-- The compiler writes one line, which leads from one store to another. -/
structure Store.Tells (level : Level) (text : String) (s t : Store) : Prop where
  /-- The journal gets a record, and all else is left alone. -/
  eq : t = { s with journal := s.journal.record compileLogger level text }
  /-- A record that counts is written to the console once, and to the log file once if there is one. -/
  written : ∀ file, s.journal.Sends file → s.journal.Takes compileLogger level →
    Journal.WrittenOnce file s.journal t.journal compileLogger level text
  /-- A record that does not count is written nowhere. -/
  silent : ((s.journal.enroll compileLogger).ask compileLogger level).1 = false →
    t.journal.console = s.journal.console ∧ t.journal.disk = s.journal.disk

/-- Deeds, one after another and nothing besides, lead from one store to another. -/
inductive Store.Leads : Store → List Deed → Store → Prop
  | nil (s : Store) : Store.Leads s [] s
  | line {s u t : Store} {level : Level} {text : String} {deeds : List Deed} :
    Store.Tells level text s u → Store.Leads u deeds t → Store.Leads s (.line level text :: deeds) t
  | call {s u t : Store} {c : PassCall} {deeds : List Deed} :
    c.Leads s u → Store.Leads u deeds t → Store.Leads s (.call c :: deeds) t

/-- A pass is announced and called, and its failure is told, each by its description; without one, a pass
goes by its sort. -/
def PassCall.deeds (c : PassCall) : List Deed :=
  let words := if c.pass.description = "" then c.pass.sort else c.pass.description
  .line Level.info words :: .call c ::
    match c.answer with
    | .ok _ => []
    | .error cause =>
      [.line Level.error ("Compiler pass failed: " ++ words ++ " (" ++ cause.message ++ ")")]

/-- The calls of a run of passes on a set, from one store to another. -/
structure PassCalls (ps : List Pass) (d : SetId) (s : Store) (calls : List PassCall) (t : Store) :
    Prop where
  /-- The passes are called in their order, and none is passed over. -/
  order : calls.map PassCall.pass <+: ps
  /-- Each is called on the set that the calls before it hand on. -/
  set : ∀ before call after, calls = before ++ call :: after → call.set = handedOn d before
  /-- Nothing else is done. -/
  deeds : s.Leads (calls.flatMap PassCall.deeds) t

/-! ## Putting runs together -/

theorem Store.Leads.append {s u t : Store} {deeds deeds' : List Deed} (h : s.Leads deeds u)
    (h' : u.Leads deeds' t) : s.Leads (deeds ++ deeds') t := by
  induction h with
  | nil s => exact h'
  | line hline _ ih => exact .line hline (ih h')
  | call hcall _ ih => exact .call hcall (ih h')

theorem handedOn_cons (d : SetId) (c : PassCall) (calls : List PassCall) :
    handedOn d (c :: calls) = handedOn (c.next?.getD d) calls := by
  unfold handedOn
  rw [List.filterMap_cons]
  cases c.next? with
  | none => rfl
  | some next => exact List.getLastD_cons

/-- No pass is called in no run. -/
theorem PassCalls.nil (d : SetId) (s : Store) : PassCalls [] d s [] s where
  order := List.prefix_refl _
  set := by
    intro before call after hsplit
    exact absurd hsplit (by simp)
  deeds := .nil s

/-- A call, and a run on the set that it hands on. -/
theorem PassCalls.cons {p : Pass} {ps : List Pass} {d : SetId} {s u t : Store} {c : PassCall}
    {calls : List PassCall} (hpass : c.pass = p) (hset : c.set = d) (hfirst : s.Leads c.deeds u)
    (h : PassCalls ps (c.next?.getD d) u calls t) : PassCalls (p :: ps) d s (c :: calls) t where
  order := by
    rw [List.map_cons, hpass]
    exact (List.prefix_cons_inj p).2 h.order
  set := by
    intro before call after hsplit
    cases before with
    | nil =>
      cases hsplit
      exact hset
    | cons first before =>
      rw [List.cons_append, List.cons.injEq] at hsplit
      obtain ⟨rfl, hsplit⟩ := hsplit
      rw [handedOn_cons]
      exact h.set before call after hsplit
  deeds := by
    rw [List.flatMap_cons]
    exact hfirst.append h.deeds

/-! ## One pass -/

/-- A record of the compiler's is one line. -/
theorem Store.tells_record (s : Store) (level : Level) (text : String) :
    Store.Tells level text s (s.record compileLogger level text) where
  eq := rfl
  written := fun _ hsends htakes => hsends.writtenOnce text htakes
  silent := fun h => Journal.record_of_not_counts text h

/-- **A step of a run** is one call with its lines. -/
theorem runPass_deeds (p : Pass) (d : SetId) (s : Store) :
    ∃ (c : PassCall) (t : Store), c.pass = p ∧ c.set = d ∧ s.Leads c.deeds t ∧
      runPass p d s = match c.answer with
        | .ok next => .ok next t
        | .error cause => .error ⟨p.title, cause⟩ t := by
  unfold runPass
  cases hrun : p.run d (s.record compileLogger Level.info p.title) with
  | ok next t =>
    refine ⟨⟨p, d, .ok next⟩, t, rfl, rfl, ?_, rfl⟩
    exact .line (s.tells_record _ _) (.call hrun (.nil t))
  | error cause t =>
    refine ⟨⟨p, d, .error cause⟩, _, rfl, rfl, ?_, rfl⟩
    exact .line (s.tells_record _ _) (.call hrun (.line (t.tells_record _ _) (.nil _)))

/-! ## Runs -/

/-- How a run ends, given its calls: with the set that they hand on once all passes were called, or with
    the failure of the last call. -/
inductive PassCalls.Ends (ps : List Pass) (d : SetId) (calls : List PassCall) (t : Store) :
    EStateM.Result CompileError Store SetId → Prop
  | well : calls.map PassCall.pass = ps → (∀ call ∈ calls, call.Succeeds) →
    PassCalls.Ends ps d calls t (.ok (handedOn d calls) t)
  | failed {before : List PassCall} {last : PassCall} {cause : PassFailure} :
    calls = before ++ [last] → (∀ call ∈ before, call.Succeeds) → last.answer = .error cause →
    PassCalls.Ends ps d calls t (.error ⟨last.pass.title, cause⟩ t)

/-- A run ends as its rest does, if the first call succeeds. -/
theorem PassCalls.Ends.cons {ps : List Pass} {d : SetId} {c : PassCall} {calls : List PassCall}
    {t : Store} {result : EStateM.Result CompileError Store SetId} (hc : c.Succeeds)
    (h : PassCalls.Ends ps (c.next?.getD d) calls t result) :
    PassCalls.Ends (c.pass :: ps) d (c :: calls) t result := by
  have hall : ∀ before : List PassCall, (∀ call ∈ before, call.Succeeds) →
      ∀ call ∈ c :: before, call.Succeeds := by
    intro before hbefore
    rw [List.forall_mem_cons]
    exact ⟨hc, hbefore⟩
  cases h with
  | well hpasses hsucceed =>
    rw [← handedOn_cons]
    exact .well (by rw [List.map_cons, hpasses]) (hall calls hsucceed)
  | failed hcalls hsucceed hanswer =>
    exact .failed (by rw [hcalls, List.cons_append]) (hall _ hsucceed) hanswer

/-- **A run of passes** is a run of calls, and ends as they say. -/
theorem runPasses_calls (ps : List Pass) (d : SetId) (s : Store) :
    ∃ calls t, PassCalls ps d s calls t ∧ PassCalls.Ends ps d calls t (runPasses d ps s) := by
  induction ps generalizing d s with
  | nil => exact ⟨[], s, .nil d s, .well rfl (by simp)⟩
  | cons p rest ih =>
    obtain ⟨c, u, rfl, hset, hdeeds, hstep⟩ := runPass_deeds p d s
    have hrun : runPasses d (c.pass :: rest) s =
        EStateM.bind (runPass c.pass d) (fun next => runPasses (next.getD d) rest) s := rfl
    rw [hrun, EStateM.bind, hstep]
    cases hanswer : c.answer with
    | ok next =>
      have hnext : c.next? = next := by
        rw [PassCall.next?, hanswer]
      -- The rest runs on the set that the first call hands on.
      obtain ⟨calls, t, hcalls, hends⟩ := ih (next.getD d) u
      rw [← hnext] at hcalls hends ⊢
      exact ⟨c :: calls, t, .cons rfl hset hdeeds hcalls, .cons ⟨next, hanswer⟩ hends⟩
    | error cause =>
      have hnone : PassCalls rest (c.next?.getD d) u [] u := ⟨List.nil_prefix, by simp, .nil u⟩
      have hlast : [c] = [] ++ [c] := rfl
      exact ⟨[c], u, .cons rfl hset hdeeds hnone, .failed hlast (by simp) hanswer⟩

/-! ## The theorem -/

/-- The store with the settings of a configuration written into a set. -/
def Store.configured (s : Store) (d : SetId) : Option Config → Store
  | none => s
  | some config => s.updateSet d fun set => { set with settings := set.settings.putAll config.settings }

/-- **A run of a compiler, call by call.**  After the settings are written, passes are called by falling
    priority, hence none twice, each on the set that the calls before it hand on; and nothing else is done
    but writing a line before each call and a line after a failing one.  If all succeed then all passes are
    called, and the set that they hand on comes out.  If one fails it is the last that is called, and the
    failure is told under its description, or under its sort if that is empty. -/
theorem Compiler.compile_calls {ps : List Pass} {c : Compiler} (h : Compiler.ofPasses ps = .ok c)
    (d : SetId) (config : Option Config) (s : Store) :
    c.passes.Perm ps ∧ ∃ calls t, PassCalls c.passes d (s.configured d config) calls t ∧
      (calls.map PassCall.pass).Pairwise (fun p q => q.priority < p.priority) ∧
      ((calls.map PassCall.pass = c.passes ∧ (∀ call ∈ calls, call.Succeeds) ∧
          c.compile d config s = .ok (handedOn d calls) t) ∨
        ∃ before last cause, calls = before ++ [last] ∧ (∀ call ∈ before, call.Succeeds) ∧
          last.answer = .error cause ∧ c.compile d config s = .error
            ⟨if last.pass.description = "" then last.pass.sort else last.pass.description, cause⟩ t) := by
  have hcompile : c.compile d config s = runPasses d c.passes (s.configured d config) := by
    cases config with
    | none => rfl
    | some config => rfl
  obtain ⟨calls, t, hcalls, hends⟩ := runPasses_calls c.passes d (s.configured d config)
  rw [← hcompile] at hends
  refine ⟨?_, calls, t, hcalls, c.passes_descending.sublist hcalls.order.sublist, ?_⟩
  · rw [← given_of_ofPasses h]
    exact c.passes_perm
  · generalize c.compile d config s = result at hends
    cases hends with
    | well hall hsucceed => exact Or.inl ⟨hall, hsucceed, rfl⟩
    | failed hlast hsucceed hanswer => exact Or.inr ⟨_, _, _, hlast, hsucceed, hanswer, rfl⟩

/-- Three passes, the lowest given first, and a journal that takes lines of information: one pass goes on with
another set, one answers with none, and the last fails, which has no description and is told by its sort.
What they did to the other set stays done, and the console shows four lines. -/
theorem Compiler.compile_calls_failing :
    let s := (((Store.empty ((Journal.fresh .empty "12:00").configure (.word "info") none).1).addGuide
      "first" ∅).1.addGuide "second" ∅).1
    let turn : Pass := ⟨"Turn", "turn", 3, "Turn to the next set", fun d => pure (some ⟨d.row + 1⟩)⟩
    let mark : Pass := ⟨"Mark", "mark", 2, "Mark it", fun d => do
      Build.change (·.putSetting d "marked" .null)
      pure none⟩
    let fail : Pass := ⟨"Fail", "fail", 1, "", fun d => do
      Build.change (·.putSetting d "failed" .null)
      throw (.foreign "ValueError" "no")⟩
    ∃ c, Compiler.ofPasses [fail, turn, mark] = .ok c ∧ c.passes = [turn, mark, fail] ∧
      ∃ calls t, PassCalls c.passes ⟨0⟩ s calls t ∧ calls.map PassCall.pass = [turn, mark, fail] ∧
        c.compile ⟨0⟩ none s = .error ⟨"Fail", .foreign "ValueError" "no"⟩ t ∧
        (t.docSet ⟨0⟩).settings.keys = [] ∧ (t.docSet ⟨1⟩).settings.keys = ["marked", "failed"] ∧
        t.journal.console = ["[doccompiler] INFO Turn to the next set", "[doccompiler] INFO Mark it",
          "[doccompiler] INFO Fail", "[doccompiler] ERROR Compiler pass failed: Fail (no)"] := by
  intro s turn mark fail
  have hdiffer : [fail, turn, mark].Pairwise Pass.Differ := by decide
  have hmade := Compiler.ofPasses_eq_ok hdiffer
  have hpasses : runningOrder [fail, turn, mark] = [turn, mark, fail] := by
    simp [runningOrder, List.mergeSort, List.MergeSort.Internal.splitInTwo, fail, turn, mark]
  obtain ⟨-, calls, t, hcalls, -, hends⟩ := Compiler.compile_calls hmade ⟨0⟩ none s
  refine ⟨_, hmade, hpasses, calls, t, hcalls, ?_⟩
  have hprefix : calls.map PassCall.pass <+: [turn, mark, fail] := hpasses ▸ hcalls.order
  unfold Compiler.compile Compiler.passes at hends ⊢
  rw [hpasses] at hends ⊢
  have hrun : runPasses ⟨0⟩ [turn, mark, fail] s =
      .error ⟨"Fail", .foreign "ValueError" "no"⟩ _ := rfl
  rcases hends with ⟨-, -, hwell⟩ | ⟨before, last, cause, hlast, -, -, hfailed⟩
  · exact absurd (hwell.symm.trans hrun) nofun
  · obtain ⟨hfailure, rfl⟩ := EStateM.Result.error.inj (hfailed.symm.trans hrun)
    refine ⟨?_, rfl, by decide, by decide, by decide⟩
    have hword := (CompileError.mk.inj hfailure).1
    rw [hlast, List.map_append, List.map_singleton] at hprefix ⊢
    -- Of the three passes, the last alone goes by the word of the failure.
    match hbefore : before.map PassCall.pass with
    | [] =>
      rw [hbefore] at hprefix
      obtain ⟨hturn, -⟩ := List.cons_prefix_cons.1 hprefix
      rw [hturn] at hword
      exact absurd hword (by decide)
    | [first] =>
      rw [hbefore] at hprefix
      obtain ⟨-, hprefix⟩ := List.cons_prefix_cons.1 hprefix
      obtain ⟨hmark, -⟩ := List.cons_prefix_cons.1 hprefix
      rw [hmark] at hword
      exact absurd hword (by decide)
    | first :: second :: rest =>
      rw [hbefore] at hprefix
      exact hprefix.eq_of_length_le (by simp)

end Docset
