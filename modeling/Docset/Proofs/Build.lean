/-
  How build steps end.

  `Ends step s Q E` says how a step ends, begun on the store `s`: if it ends well, its answer and the store
  after it are as `Q` says, and if it fails, the cause and the store are as `E` says.  Mostly a step is to
  end well, and `Ensures step s Q` says that it does (`ensures_iff_ends`).  There is one rule for each way in
  which steps are made, so what a pass ensures is read off its definition rule by rule:

  * `ensures_bind` puts two steps together;
  * `ensures_change`, `ensures_addNode`, `ensures_lookUp` and `ensures_fileAt` are the steps that
    touch the store;
  * `ensures_forEach` is the loop, with an invariant that may speak of the part of the list that is
    DONE.
-/
import Docset.Store.Build

namespace Docset.Build

variable {δ ε α β : Type}

/-! ## How steps end -/

/-- Begun on `s`, the step ends well as in `Q`, or it fails as in `E`. -/
def Ends (step : Build ε α) (s : Store) (Q : α → Store → Prop) (E : ε → Store → Prop) : Prop :=
  match step s with
  | .ok a t => Q a t
  | .error cause t => E cause t

instance (step : Build ε α) (s : Store) (Q : α → Store → Prop) (E : ε → Store → Prop)
    [∀ a t, Decidable (Q a t)] [∀ cause t, Decidable (E cause t)] : Decidable (Ends step s Q E) :=
  match h : step s with
  | .ok a t => decidable_of_iff (Q a t) (by rw [Ends, h])
  | .error cause t => decidable_of_iff (E cause t) (by rw [Ends, h])

theorem Ends.mono {step : Build ε α} {s : Store} {Q R : α → Store → Prop} {E F : ε → Store → Prop}
    (h : Ends step s Q E) (hQ : ∀ a t, Q a t → R a t) (hE : ∀ cause t, E cause t → F cause t) :
    Ends step s R F := by
  rw [Ends] at h ⊢
  cases hrun : step s with
  | ok a t =>
    rw [hrun] at h
    exact hQ a t h
  | error cause t =>
    rw [hrun] at h
    exact hE cause t h

/-- How a step ends may be told together with the run itself. -/
theorem Ends.and_run {step : Build ε α} {s : Store} {Q : α → Store → Prop} {E : ε → Store → Prop}
    (h : Ends step s Q E) :
    Ends step s (fun a t => step s = .ok a t ∧ Q a t) fun cause t => step s = .error cause t ∧ E cause t := by
  rw [Ends] at h ⊢
  cases hrun : step s with
  | ok a t =>
    rw [hrun] at h
    exact ⟨rfl, h⟩
  | error cause t =>
    rw [hrun] at h
    exact ⟨rfl, h⟩

section Rules

variable {s : Store} {E : ε → Store → Prop}

theorem ends_pure {a : α} {Q : α → Store → Prop} : Ends (pure a : Build ε α) s Q E ↔ Q a s := Iff.rfl

theorem ends_get {Q : Store → Store → Prop} : Ends (get : Build ε Store) s Q E ↔ Q s s := Iff.rfl

theorem ends_change {f : Store → Store} {Q : Unit → Store → Prop} :
    Ends (change f : Build ε Unit) s Q E ↔ Q () (f s) := Iff.rfl

theorem ends_addNode {n : Node} {Q : NodeId → Store → Prop} :
    Ends (addNode n : Build ε NodeId) s Q E ↔ Q ⟨s.nodes.size⟩ (s.addNode n).1 := Iff.rfl

/-- Two steps fail because the first does, or else the second after the first. -/
theorem ends_bind {step : Build ε α} {next : α → Build ε β} {Q : β → Store → Prop} :
    Ends (step >>= next) s Q E ↔ Ends step s (fun a t => Ends (next a) t Q E) E := by
  have hbind : (step >>= next) s = EStateM.bind step next s := rfl
  rw [Ends, Ends, hbind, EStateM.bind]
  cases step s with
  | ok a t => exact Iff.rfl
  | error cause t => exact Iff.rfl

theorem ends_mapError {f : δ → ε} {step : Build δ α} {Q : α → Store → Prop} :
    Ends (mapError f step) s Q E ↔ Ends step s Q fun cause => E (f cause) := by
  rw [Ends, Ends, mapError]
  cases step s with
  | ok a t => exact Iff.rfl
  | error cause t => exact Iff.rfl

/-- A look-up changes nothing, whatever comes of it. -/
theorem ends_lookUp {tree : Tree} {d : SetId} {index key : String} {Q : Option NodeId → Store → Prop}
    {E : IndexMismatch → Store → Prop} (hQ : ∀ found, Q found s) (hE : ∀ cause, E cause s) :
    Ends (lookUp tree d index key) s Q E := by
  rw [Ends, lookUp]
  cases s.lookUp tree d index key with
  | ok found => exact hQ found
  | error cause => exact hE cause

/-- **The loop rule**, with an invariant that speaks of the part of the list that is done. -/
theorem ends_forEach {step : α → Build ε Unit} {as : List α} (I : List α → Store → Prop)
    (hstart : I [] s)
    (hstep : ∀ done a rest t, as = done ++ a :: rest → I done t →
      Ends (step a) t (fun _ u => I (done ++ [a]) u) E) :
    Ends (forEach step as) s (fun _ t => I as t) E := by
  have hloop : ∀ rest done t, as = done ++ rest → I done t →
      Ends (forEach step rest) t (fun _ u => I as u) E := by
    intro rest
    induction rest with
    | nil =>
      intro done t has hI
      rw [List.append_nil] at has
      rw [forEach, ends_pure, has]
      exact hI
    | cons a rest ih =>
      intro done t has hI
      rw [forEach, ends_bind]
      refine (hstep done a rest t has hI).mono (fun _ u hu => ?_) fun _ _ hfail => hfail
      exact ih (done ++ [a]) u (by rw [has, List.append_assoc]; rfl) hu
  exact hloop as [] s rfl hstart

end Rules

/-- Filing changes nothing where the node does not hold the kind. -/
theorem ends_fileAt {s : Store} {n : NodeId} {e : ElementId} {Q : Unit → Store → Prop}
    {E : BindError → Store → Prop}
    (hQ : ∀ held, (s.node n).collection (s.element e).kind = .ok held →
      Q () (s.updateNode n fun node => { node with members := node.members.add (s.element e).kind e }))
    (hE : ∀ m, (s.node n).collection (s.element e).kind = .error m → E (.misfit m) s) :
    Ends (fileAt n e) s Q E := by
  rw [Ends, fileAt, Store.fileAt]
  cases hheld : (s.node n).collection (s.element e).kind with
  | ok held => exact hQ held hheld
  | error m => exact hE m hheld

/-! ## Ending well -/

/-- Begun on `s`, the step does not fail, and its answer and the store after it are as in `Q`. -/
def Ensures (step : Build ε α) (s : Store) (Q : α → Store → Prop) : Prop :=
  ∃ a t, step s = .ok a t ∧ Q a t

/-- To end well is to end in any way but failure. -/
theorem ensures_iff_ends {step : Build ε α} {s : Store} {Q : α → Store → Prop} :
    Ensures step s Q ↔ Ends step s Q fun _ _ => False := by
  rw [Ensures, Ends]
  cases hrun : step s with
  | ok a t =>
    constructor
    · rintro ⟨b, u, heq, hQ⟩
      cases heq
      exact hQ
    · intro hQ
      exact ⟨a, t, rfl, hQ⟩
  | error cause t => simp

/-- What a step ensures may be weakened. -/
theorem Ensures.mono {step : Build ε α} {s : Store} {Q R : α → Store → Prop}
    (h : Ensures step s Q) (hQR : ∀ a t, Q a t → R a t) : Ensures step s R := by
  obtain ⟨a, t, hrun, hQ⟩ := h
  exact ⟨a, t, hrun, hQR a t hQ⟩

/-- A step has one outcome, so what it ensures on two accounts it ensures at once. -/
theorem Ensures.and {step : Build ε α} {s : Store} {Q R : α → Store → Prop}
    (hQ : Ensures step s Q) (hR : Ensures step s R) : Ensures step s fun a t => Q a t ∧ R a t := by
  obtain ⟨a, t, hrun, hQ⟩ := hQ
  obtain ⟨b, u, hrun', hR⟩ := hR
  rw [hrun] at hrun'
  cases hrun'
  exact ⟨a, t, hrun, hQ, hR⟩

/-- What a step ensures holds of the outcome that it has. -/
theorem Ensures.of_ok {step : Build ε α} {s t : Store} {a : α} {Q : α → Store → Prop}
    (h : Ensures step s Q) (hrun : step s = .ok a t) : Q a t := by
  obtain ⟨b, u, hrun', hQ⟩ := h
  rw [hrun] at hrun'
  cases hrun'
  exact hQ

/-! ## Putting steps together -/

theorem ensures_pure {a : α} {s : Store} {Q : α → Store → Prop} :
    Ensures (pure a : Build ε α) s Q ↔ Q a s :=
  ensures_iff_ends.trans ends_pure

/-- Two steps ensure what the second ensures after every outcome of the first. -/
theorem ensures_bind {step : Build ε α} {next : α → Build ε β} {s : Store}
    {Q : β → Store → Prop} :
    Ensures (step >>= next) s Q ↔ Ensures step s fun a t => Ensures (next a) t Q := by
  simp only [ensures_iff_ends, ends_bind]

/-- Telling failures in other words changes nothing where there is none. -/
theorem ensures_mapError {f : δ → ε} {step : Build δ α} {s : Store} {Q : α → Store → Prop} :
    Ensures (mapError f step) s Q ↔ Ensures step s Q := by
  rw [ensures_iff_ends, ensures_iff_ends, ends_mapError]

/-! ## Taking runs apart -/

/-- A step that ends well after another does so because both do. -/
theorem ok_of_bind {step : Build ε α} {next : α → Build ε β} {s u : Store} {b : β}
    (h : (step >>= next) s = .ok b u) : ∃ a t, step s = .ok a t ∧ next a t = .ok b u := by
  have hbind : (step >>= next) s = EStateM.bind step next s := rfl
  rw [hbind, EStateM.bind] at h
  cases hstep : step s with
  | error e t => rw [hstep] at h; cases h
  | ok a t =>
    rw [hstep] at h
    exact ⟨a, t, rfl, h⟩

theorem ok_of_mapError {f : δ → ε} {step : Build δ α} {s t : Store} {a : α}
    (h : mapError f step s = .ok a t) : step s = .ok a t := by
  rw [mapError] at h
  cases hstep : step s with
  | error e u => rw [hstep] at h; cases h
  | ok b u =>
    rw [hstep] at h
    cases h
    rfl

/-- A loop goes through a list and one more, if it goes through the list and then through the one. -/
theorem forEach_concat {step : α → Build ε Unit} {done : List α} {a : α} {s t u : Store}
    (hdone : forEach step done s = .ok () t) (ha : step a t = .ok () u) :
    forEach step (done ++ [a]) s = .ok () u := by
  induction done generalizing s with
  | nil =>
    cases hdone
    show EStateM.bind (step a) (fun _ => pure ()) t = _
    rw [EStateM.bind, ha]
    rfl
  | cons first rest ih =>
    rw [forEach] at hdone
    obtain ⟨x, v, hfirst, hrest⟩ := ok_of_bind hdone
    show EStateM.bind (step first) _ s = _
    rw [EStateM.bind, hfirst]
    exact ih hrest

/-! ## Steps on the store -/

theorem ensures_get {s : Store} {Q : Store → Store → Prop} :
    Ensures (get : Build ε Store) s Q ↔ Q s s :=
  ensures_iff_ends.trans ends_get

theorem ensures_set {s t : Store} {Q : PUnit → Store → Prop} :
    Ensures (set t : Build ε PUnit) s Q ↔ Q ⟨⟩ t :=
  ensures_iff_ends

theorem ensures_change {f : Store → Store} {s : Store} {Q : Unit → Store → Prop} :
    Ensures (change f : Build ε Unit) s Q ↔ Q () (f s) :=
  ensures_iff_ends.trans ends_change

theorem ensures_debug {logger text : String} {s : Store} {Q : Unit → Store → Prop} :
    Ensures (debug logger text : Build ε Unit) s Q ↔ Q () (s.record logger Level.debug text) :=
  ensures_change

theorem ensures_addNode {n : Node} {s : Store} {Q : NodeId → Store → Prop} :
    Ensures (addNode n : Build ε NodeId) s Q ↔ Q ⟨s.nodes.size⟩ (s.addNode n).1 :=
  ensures_iff_ends.trans ends_addNode

/-- A look-up ends well where the index holds nothing of the wrong sort under the key. -/
theorem ensures_lookUp {tree : Tree} {d : SetId} {index key : String} {s : Store}
    {Q : Option NodeId → Store → Prop} :
    Ensures (lookUp tree d index key) s Q ↔
      ∃ found, s.lookUp tree d index key = .ok found ∧ Q found s := by
  constructor
  · rintro ⟨a, t, hrun, hQ⟩
    rw [lookUp] at hrun
    cases hfound : s.lookUp tree d index key with
    | error e => rw [hfound] at hrun; cases hrun
    | ok found =>
      rw [hfound] at hrun
      cases hrun
      exact ⟨a, rfl, hQ⟩
  · rintro ⟨found, hfound, hQ⟩
    refine ⟨found, s, ?_, hQ⟩
    rw [lookUp, hfound]

/-- Filing ends well at a node that holds the element's kind. -/
theorem ensures_fileAt {n : NodeId} {e : ElementId} {s : Store} {Q : Unit → Store → Prop}
    (hkind : (s.element e).kind ∈ (s.node n).tree.kinds)
    (hQ : Q () (s.updateNode n fun node =>
      { node with members := node.members.add (s.element e).kind e })) :
    Ensures (fileAt n e) s Q := by
  refine ⟨(), _, ?_, hQ⟩
  have hheld : (s.node n).collection (s.element e).kind =
      .ok ((s.node n).members.ofKind (s.element e).kind) := by
    rw [Node.collection, if_pos hkind]
  rw [fileAt, Store.fileAt, hheld]

/-! ## Loops -/

/-- **The loop rule.**  An invariant of the part that is done, and of the store, holds at the end of a
    loop for the whole list, if every single step takes it one member further. -/
theorem ensures_forEach {step : α → Build ε Unit} {as : List α} {s : Store}
    (I : List α → Store → Prop) (hstart : I [] s)
    (hstep : ∀ done a rest t, as = done ++ a :: rest → I done t →
      Ensures (step a) t fun _ u => I (done ++ [a]) u) :
    Ensures (forEach step as) s fun _ t => I as t := by
  rw [ensures_iff_ends]
  refine ends_forEach I hstart fun done a rest t has hI => ?_
  exact ensures_iff_ends.1 (hstep done a rest t has hI)

end Docset.Build
