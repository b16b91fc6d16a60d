import LinearProgram.Proofs.LpText.Writing
import LinearProgram.Proofs.Model.Flattening
import LinearProgram.Proofs.Model.Phases

/-!
Writing step by step. What has been written stays when a later step stops, and the name of a column
is looked up when its entry is due, so that writing could break off in the middle of a line. Main
statement: writing a model is refused before anything is written, or it goes through to the end.
-/

namespace LinearProgram

/-- Why writing stops: a request fails, or an entry is due whose column has no name. -/
inductive Stop
  | failed (e : Failure)
  | unnamed (column count : Nat)
  deriving DecidableEq

/-- Steps that each add to what has been written, or stop. -/
abbrev Emission := ExceptT Stop (StateM String)

namespace Emission

variable {α β : Type}

/-- How the steps end and what has been written by then, from what had been written before. -/
def run (w : Emission α) (written : String) : Except Stop α × String :=
  (StateT.run (ExceptT.run w) written).run

def put (text : String) : Emission Unit := modify (· ++ text)

def putLine (line : String) : Emission Unit := put (line ++ "\n")

/-- Waits for a request and stops if it fails. -/
def await : Outcome α → Emission α
  | .ok a => pure a
  | .error e => throw (.failed e)

/-- The name of a column, where there is one. -/
def lookup (names : Array String) (j : Nat) : Emission String :=
  match names[j]? with
  | some name => pure name
  | none => throw (.unnamed j names.size)

/-- All steps are taken, and together they add a text. -/
def Emits (w : Emission Unit) (text : String) : Prop :=
  ∀ written, w.run written = (.ok (), written ++ text)

theorem emits_put (text : String) : Emits (put text) text := fun _ => rfl

theorem emits_putLine (line : String) : Emits (putLine line) (line ++ "\n") := fun _ => rfl

theorem lookup_of_lt {names : Array String} {j : Nat} (h : j < names.size) :
    lookup names j = pure (names.getD j "") := by
  rw [lookup, Array.getElem?_eq_getElem h, Array.getD_eq_getD_getElem?,
    Array.getElem?_eq_getElem h]
  rfl

theorem run_bind (w : Emission α) (f : α → Emission β) (written : String) :
    run (w >>= f) written
      = match w.run written with
        | (.ok a, after) => (f a).run after
        | (.error e, after) => (.error e, after) := by
  unfold run
  rw [ExceptT.run_bind, StateT.run_bind, Id.run_bind]
  generalize ((ExceptT.run w).run written).run = answer
  obtain ⟨e | a, after⟩ := answer
  · rfl
  · rfl

theorem Emits.congr {w : Emission Unit} {text text' : String} (h : w.Emits text)
    (heq : text = text') : w.Emits text' := heq ▸ h

theorem Emits.andThen {w w' : Emission Unit} {text text' : String} (h : w.Emits text)
    (h' : w'.Emits text') : Emits (w >>= fun _ => w') (text ++ text') := by
  intro written
  rw [run_bind, h written]
  dsimp only
  rw [h', String.append_assoc]

theorem emits_forM {f : α → Emission Unit} {text : α → String} {xs : List α}
    (h : ∀ x ∈ xs, (f x).Emits (text x)) : Emits (xs.forM f) (String.join (xs.map text)) := by
  induction xs with
  | nil =>
      intro written
      rw [List.map_nil, String.join_nil, String.append_empty]
      rfl
  | cons x xs ih =>
      obtain ⟨hx, hxs⟩ := List.forall_mem_cons.mp h
      rw [List.map_cons, String.join_cons]
      exact hx.andThen (ih hxs)

end Emission

namespace LpText

open Emission

variable {κ : Type} [Scalar κ] {names : Array String} {entries : List (Nat × κ)}

/-! ### The steps -/

def emitLinear (names : Array String) (entries : List (Nat × κ)) : Emission Unit :=
  if entries.isEmpty then put " 0"
  else entries.zipIdx.forM fun ((j, c), k) => do
    let name ← lookup names j
    put (entry k c name)

def emitLine (names : Array String) (r : Row κ) (suffix relation : String) (v : κ) :
    Emission Unit := do
  put (" " ++ name r.name ++ suffix ++ ":")
  emitLinear names r.entries
  putLine (relation ++ Scalar.text v)

def emitRow (names : Array String) (r : Row κ) : Emission Unit :=
  match r.bounds with
  | .free => putLine ("\\ free row " ++ name r.name)
  | .atLeast l => emitLine names r "" " >= " l
  | .atMost u => emitLine names r "" " <= " u
  | .fixed v => emitLine names r "" " = " v
  | .between l u => do
    emitLine names r ".lo" " >= " l
    emitLine names r ".hi" " <= " u

def emitObjective (names : Array String) (o : FlatObjective κ) : Emission Unit := do
  put (" " ++ name o.name ++ ":")
  (if o.entries.isEmpty then pure () else emitLinear names o.entries : Emission Unit)
  putLine (constant o)

def emit (title : Option String) (p : Problem κ) : Emission Unit := do
  let names := p.names.toArray
  putLine ("\\ Problem: " ++ title.getD "model")
  putLine (sense p.objective.sense)
  emitObjective names p.objective
  putLine "Subject To"
  p.rows.forM (emitRow names)
  putLine "Bounds"
  p.columns.forM fun c => putLine (bounds (name c.name) c.bounds)
  (generalSection p.columns).forM putLine
  putLine "End"

/-! ### What the steps add up to -/

theorem emits_linear (h : ∀ e ∈ entries, e.1 < names.size) :
    Emits (emitLinear names entries) (linear names entries) := by
  unfold emitLinear linear
  split
  · exact emits_put " 0"
  · refine emits_forM fun ⟨⟨j, c⟩, k⟩ he => ?_
    dsimp only
    rw [lookup_of_lt (h (j, c) (List.fst_mem_of_mem_zipIdx he)), pure_bind]
    exact emits_put _

theorem emits_line {r : Row κ} (h : ∀ e ∈ r.entries, e.1 < names.size)
    (suffix relation : String) (v : κ) :
    Emits (emitLine names r suffix relation v)
      (" " ++ name r.name ++ suffix ++ ":" ++ linear names r.entries ++ relation
        ++ Scalar.text v ++ "\n") := by
  refine ((emits_put _).andThen ((emits_linear h).andThen (emits_putLine _))).congr ?_
  simp only [String.append_assoc]

/-- Lines with a line break behind each. -/
def unlines (ls : List String) : String := String.join (ls.map (· ++ "\n"))

theorem unlines_append (ls ms : List String) : unlines (ls ++ ms) = unlines ls ++ unlines ms := by
  rw [unlines, List.map_append, String.join_append]
  rfl

theorem unlines_cons (l : String) (ls : List String) :
    unlines (l :: ls) = l ++ "\n" ++ unlines ls :=
  String.join_cons

theorem unlines_singleton (l : String) : unlines [l] = l ++ "\n" := by
  rw [unlines_cons]
  exact String.append_empty

theorem unlines_flatMap {α : Type} (f : α → List String) (xs : List α) :
    unlines (xs.flatMap f) = String.join (xs.map fun x => unlines (f x)) := by
  induction xs with
  | nil => rfl
  | cons x xs ih =>
      rw [List.flatMap_cons, unlines_append, ih, List.map_cons, String.join_cons]

theorem emits_row {r : Row κ} (h : ∀ e ∈ r.entries, e.1 < names.size) :
    Emits (emitRow names r) (unlines (row names r)) := by
  unfold emitRow row
  cases r.bounds with
  | free => exact (emits_putLine _).congr (unlines_singleton _).symm
  | atLeast l => exact (emits_line h "" " >= " l).congr (unlines_singleton _).symm
  | atMost u => exact (emits_line h "" " <= " u).congr (unlines_singleton _).symm
  | fixed v => exact (emits_line h "" " = " v).congr (unlines_singleton _).symm
  | between l u =>
      refine ((emits_line h ".lo" " >= " l).andThen (emits_line h ".hi" " <= " u)).congr ?_
      rw [unlines_cons, unlines_singleton]

theorem emits_objective {o : FlatObjective κ} (h : ∀ e ∈ o.entries, e.1 < names.size) :
    Emits (emitObjective names o) (objective names o ++ "\n") := by
  have hentries : Emits (if o.entries.isEmpty then pure () else emitLinear names o.entries)
      (if o.entries.isEmpty then "" else linear names o.entries) := by
    split
    · intro written
      rw [String.append_empty]
      rfl
    · exact emits_linear h
  refine ((emits_put _).andThen (hentries.andThen (emits_putLine _))).congr ?_
  simp only [objective, String.append_assoc]

/-- A problem without entries beyond its columns is written as its text. -/
theorem emits_problem {p : Problem κ} (title : Option String) (h : p.Within) :
    Emits (emit title p) (p.text title) := by
  have hsize : p.names.toArray.size = p.columns.length := p.length_names
  have hobjective := emits_objective (hsize ▸ h.objective)
  have hrows : Emits (p.rows.forM (emitRow p.names.toArray))
      (unlines (p.rows.flatMap (row p.names.toArray))) := by
    rw [unlines_flatMap]
    exact emits_forM fun r hr => emits_row (hsize ▸ h.rows r hr)
  have hbounds : Emits (p.columns.forM fun c => putLine (bounds (name c.name) c.bounds))
      (unlines (p.columns.map fun c => bounds (name c.name) c.bounds)) := by
    rw [unlines, List.map_map]
    exact emits_forM fun _ _ => emits_putLine _
  have hgeneral : Emits ((generalSection p.columns).forM putLine)
      (unlines (generalSection p.columns)) := emits_forM fun _ _ => emits_putLine _
  refine ((emits_putLine _).andThen ((emits_putLine _).andThen (hobjective.andThen
    ((emits_putLine _).andThen (hrows.andThen ((emits_putLine _).andThen (hbounds.andThen
      (hgeneral.andThen (emits_putLine _))))))))).congr ?_
  rw [Problem.text, render, ← unlines, lines]
  simp only [List.cons_append, List.nil_append, List.append_assoc, unlines_append, unlines_cons]
  rfl

/-- A row whose column is not there stops the writer behind the row's name. -/
example : (emit none ⟨[], [⟨"r", .atMost 1, [(0, (2 : Rat))]⟩], ⟨"obj", .minimize, [], 0⟩⟩).run ""
    = (.error (.unnamed 0 0), "\\ Problem: model\nMinimize\n obj: + 0\nSubject To\n r:") := by
  decide +kernel

end LpText

namespace Session

open Emission

variable {κ : Type} [Scalar κ] {s : Session κ} {k : Nat} {m : Model κ} {p : Problem κ}
  {e : Failure}

/-- Writes a model step by step. -/
def emit (k : Nat) (s : Session κ) : Emission Unit := do
  let p ← await (s.problem k)
  let m ← await (s.model k)
  LpText.emit m.name p

theorem write_unlimited (hm : s.model k = .ok m) :
    (s.write k .unlimited).1 = (s.problem k).map fun p => p.text m.name := by
  have hopening : Sink.unlimited.opening = .ok () := rfl
  rw [write, problem, hopening, Outcome.ok_bind, hm]
  cases s.columns k with
  | error e => rfl
  | ok columns =>
      dsimp only
      rw [rows_of_model hm, model_rows, hm, Outcome.ok_bind, Outcome.ok_bind]
      cases m.rows with
      | error e => rfl
      | ok rows =>
          rw [Outcome.ok_bind, Outcome.ok_bind, Outcome.ok_bind]
          cases m.flatObjective <;> rfl

/-- The steps leave behind what the request answers, and nothing when it fails. -/
theorem run_emit (s : Session κ) (k : Nat) (written : String) :
    (s.emit k).run written
      = match (s.write k .unlimited).1 with
        | .ok text => (.ok (), written ++ text)
        | .error e => (.error (.failed e), written) := by
  cases hm : s.model k with
  | error e =>
      have hcolumns : s.columns k = .error e := by rw [columns, hm, Outcome.error_bind]
      have hproblem : s.problem k = .error e := by rw [problem, hcolumns, Outcome.error_bind]
      have hopening : Sink.unlimited.opening = .ok () := rfl
      rw [emit, hproblem, write, hopening, Outcome.ok_bind, hcolumns]
      rfl
  | ok m =>
      rw [write_unlimited hm]
      cases hp : s.problem k with
      | error e =>
          rw [emit, hp]
          rfl
      | ok p =>
          rw [emit, hp, hm]
          exact LpText.emits_problem m.name (within_of_problem hp) written

/-- Writing a model is refused, and what had been written before is all that is written. -/
structure RefusesToWrite (k : Nat) (fault : Fault) (s : Session κ) : Prop where
  answer : (s.write k .unlimited).1 = .refuse fault
  untouched : ∀ written, (s.emit k).run written = (.error (.failed (.fault fault)), written)

/-- A model is written to the end, as the text of a problem whose entries all have a column. -/
structure Writes (k : Nat) (title : Option String) (p : Problem κ) (s : Session κ) : Prop where
  problem : s.problem k = .ok p
  within : p.Within
  answer : (s.write k .unlimited).1 = .ok (p.text title)
  steps : Emits (s.emit k) (p.text title)

theorem refusesToWrite {kind : FaultKind} (hm : s.model k = .ok m)
    (h : (s.problem k).RefusedAs kind) :
    ∃ fault : Fault, fault.kind = kind ∧ s.RefusesToWrite k fault := by
  obtain ⟨fault, hkind, hrefused⟩ := h
  have hanswer : (s.write k .unlimited).1 = .refuse fault := by
    rw [write_unlimited hm, hrefused]
    rfl
  refine ⟨fault, hkind, hanswer, fun written => ?_⟩
  rw [run_emit, hanswer]
  rfl

theorem writes_problem (hm : s.model k = .ok m) (hp : s.problem k = .ok p) :
    s.Writes k m.name p := by
  have hanswer : (s.write k .unlimited).1 = .ok (p.text m.name) := by
    rw [write_unlimited hm, hp]
    rfl
  refine ⟨hp, within_of_problem hp, hanswer, fun written => ?_⟩
  rw [run_emit, hanswer]

theorem Writes.not_refuses {title : Option String} {fault : Fault} (h : s.Writes k title p) :
    ¬s.RefusesToWrite k fault := fun hrefuses => by
  cases h.answer.symm.trans hrefuses.answer

theorem problem_of_open (hm : s.model k = .ok m) (h : m.isSealed = false) :
    (s.problem k).RefusedAs .notSealed := by
  have hcolumns : (s.columns k).RefusedAs .notSealed := by
    rw [columns, hm, Outcome.ok_bind]
    exact (Model.whenSealed_of_open h .columns).bind _
  exact hcolumns.bind _

theorem problem_of_strays (hm : s.model k = .ok m) (hsealed : m.isSealed = true)
    (hwords : ∀ e ∈ m.expressions, e.InWords) (hcolumns : ∃ columns, s.columns k = .ok columns)
    (h : m.Strays) : (s.problem k).RefusedAs .invalidIndex := by
  obtain ⟨columns, hcolumns⟩ := hcolumns
  rw [problem, hcolumns, Outcome.ok_bind, hm, Outcome.ok_bind]
  rcases (Model.rows_and_objective_of_sealed hsealed hwords).2 h with hrows | ⟨⟨rows, hrows⟩, ho⟩
  · exact hrows.bind _
  · rw [hrows, Outcome.ok_bind]
    exact ho.bind _

theorem problem_refused (hm : s.model k = .ok m) (hwords : ∀ e ∈ m.expressions, e.InWords)
    (hcolumns : m.isSealed = true → ∃ columns, s.columns k = .ok columns)
    (h : m.isSealed = false ∨ m.Strays) :
    (s.problem k).RefusedAs (if m.isSealed then .invalidIndex else .notSealed) := by
  cases hsealed : m.isSealed with
  | false => exact problem_of_open hm hsealed
  | true =>
      have hstrays : m.Strays := h.resolve_left (by simp [hsealed])
      exact problem_of_strays hm hsealed hwords (hcolumns hsealed) hstrays

theorem exists_problem (hm : s.model k = .ok m) (hsealed : m.isSealed = true)
    (hwords : ∀ e ∈ m.expressions, e.InWords) (hcolumns : ∃ columns, s.columns k = .ok columns)
    (h : ¬m.Strays) : ∃ p, s.problem k = .ok p := by
  obtain ⟨columns, hcolumns⟩ := hcolumns
  obtain ⟨⟨rows, hrows⟩, o, ho⟩ := (Model.rows_and_objective_of_sealed hsealed hwords).1 h
  refine ⟨⟨columns, rows, o⟩, ?_⟩
  rw [problem, hcolumns, Outcome.ok_bind, hm, Outcome.ok_bind, hrows, Outcome.ok_bind, ho]
  rfl

/-- Writing a model to where every text is accepted. It is refused before anything is written just
if the model is not sealed or a term that has not cancelled, of some constraint or of the objective,
stands beyond the columns. Otherwise it goes through to the end, and every entry that is due has a
column with a name. The columns of a sealed model can always be had, as many as it counts. Bounds
are taken to have values and columns of terms to be machine words; the model may have any history
whose integers are signed words. -/
theorem write_refused_or_complete {name : Option String} {history : List (Action κ)}
    (hm : s.model k = .ok ((Model.empty name).run history))
    (hwords : ∀ a ∈ history, a.InWords)
    (hbounds : ((Model.empty name).run history).BoundsKnown s.read)
    (hterms : ∀ e ∈ ((Model.empty name).run history).expressions, e.InWords) :
    let m := (Model.empty name).run history
    ((∃ fault : Fault, fault.kind = (if m.isSealed then .invalidIndex else .notSealed)
          ∧ s.RefusesToWrite k fault) ↔ m.isSealed = false ∨ m.Strays)
      ∧ ((∃ p, s.Writes k m.name p) ↔ m.isSealed = true ∧ ¬m.Strays)
      ∧ (m.isSealed = true →
        ∃ columns, s.columns k = .ok columns ∧ columns.length = m.columnCount) := by
  intro m
  have hknown (hsealed : m.isSealed = true) : ∃ columns, s.columns k = .ok columns := by
    obtain ⟨sizes, hlaid⟩ := Model.laidOut_of_sealed hsealed
    rw [columns, hm, Outcome.ok_bind]
    exact hlaid.exists_columns ((Model.inWords_empty name).run hwords)
      (Model.distinct_run name history) hbounds
  have hcolumns (hsealed : m.isSealed = true) :
      ∃ columns, s.columns k = .ok columns ∧ columns.length = m.columnCount := by
    obtain ⟨columns, h⟩ := hknown hsealed
    refine ⟨columns, h, ?_⟩
    rw [Session.columns, hm, Outcome.ok_bind] at h
    exact Model.length_columns h
  by_cases hbad : m.isSealed = false ∨ m.Strays
  · obtain ⟨fault, hkind, hrefuses⟩ := refusesToWrite hm (problem_refused hm hterms hknown hbad)
    refine ⟨iff_of_true ⟨fault, hkind, hrefuses⟩ hbad, iff_of_false ?_ ?_, hcolumns⟩
    · rintro ⟨p, hwrites⟩
      exact hwrites.not_refuses hrefuses
    · rintro ⟨hsealed, hwithin⟩
      rcases hbad with hopen | hstrays
      · cases hsealed.symm.trans hopen
      · exact hwithin hstrays
  · obtain ⟨hopen, hwithin⟩ := not_or.mp hbad
    have hsealed : m.isSealed = true := Bool.eq_true_of_not_eq_false hopen
    obtain ⟨p, hp⟩ := exists_problem hm hsealed hterms (hknown hsealed) hwithin
    have hwrites : s.Writes k m.name p := writes_problem hm hp
    refine ⟨iff_of_false ?_ hbad, iff_of_true ⟨p, hwrites⟩ ⟨hsealed, hwithin⟩, hcolumns⟩
    rintro ⟨fault, -, hrefuses⟩
    exact hwrites.not_refuses hrefuses

/-- Two columns with bounds, and a constraint with a term of the given coefficient beyond them. -/
def strayHistory (c : Rat) : List (Action Rat) :=
  [.addLabels ⟨"A", .labelled⟩ ["a", "b"],
    .declareFamily (some "x") [⟨"A", .labelled⟩] (.atLeast (.byIndex fun coords => coords.length)),
    .constrain none ⟨.sum ⟨[(1, ⟨⟨0, 1⟩, 4⟩), (7, ⟨⟨0, 7⟩, c⟩)], 2⟩, some 3, some 10⟩,
    .setObjective none none (some (.var ⟨0, 1⟩)),
    .sealUp]

/-- The term has cancelled in one model and not in another, and a third is not sealed. -/
def straySession : Session Rat :=
  ⟨[(Model.empty none).run (strayHistory 0), (Model.empty none).run (strayHistory 2),
    (Model.empty none).run []], []⟩

theorem write_of_straySession :
    (∀ c, ∀ a ∈ strayHistory c, a.InWords)
      ∧ (∀ c, ((Model.empty none).run (strayHistory c)).BoundsKnown straySession.read)
      ∧ (∀ c ∈ [(0 : Rat), 2],
        ∀ e ∈ ((Model.empty none).run (strayHistory c)).expressions, e.InWords)
      ∧ (∃ p, straySession.Writes 0 none p)
      ∧ (∃ fault : Fault, fault.kind = .invalidIndex ∧ straySession.RefusesToWrite 1 fault)
      ∧ (∃ fault : Fault, fault.kind = .notSealed ∧ straySession.RefusesToWrite 2 fault)
      ∧ ∃ columns, straySession.columns 1 = .ok columns ∧ columns.length = 2 := by
  have hwords (c : Rat) : ∀ a ∈ strayHistory c, a.InWords := by
    simp only [strayHistory, List.forall_mem_cons, List.not_mem_nil, Action.InWords,
      false_implies, implies_true, and_true, true_and]
    decide
  have hbounds (c : Rat) :
      ((Model.empty none).run (strayHistory c)).BoundsKnown straySession.read := by
    intro f hf coords j _
    cases List.mem_singleton.mp hf
    exact ⟨⟨_, rfl⟩, _, rfl⟩
  have hterms : ∀ c ∈ [(0 : Rat), 2],
      ∀ e ∈ ((Model.empty none).run (strayHistory c)).expressions, e.InWords := by decide
  have hcancelled : ¬((Model.empty none).run (strayHistory 0)).Strays := by
    unfold Model.Strays
    decide
  have hstrays : ((Model.empty none).run (strayHistory 2)).Strays := by
    unfold Model.Strays
    decide
  have hfirst : straySession.model 0 = .ok ((Model.empty none).run (strayHistory 0)) := rfl
  have hsecond : straySession.model 1 = .ok ((Model.empty none).run (strayHistory 2)) := rfl
  have hthird : straySession.model 2 = .ok ((Model.empty none).run []) := rfl
  obtain ⟨-, hcomplete, -⟩ := write_refused_or_complete hfirst (hwords 0) (hbounds 0)
    (hterms 0 (by decide))
  obtain ⟨hrefused, -, hcolumns⟩ := write_refused_or_complete hsecond (hwords 2) (hbounds 2)
    (hterms 2 (by decide))
  obtain ⟨hopen, -, -⟩ := write_refused_or_complete hthird (List.forall_mem_nil _)
    (fun _ hf => (List.not_mem_nil hf).elim) (by decide)
  exact ⟨hwords, hbounds, hterms, hcomplete.mpr ⟨rfl, hcancelled⟩, hrefused.mpr (.inr hstrays),
    hopen.mpr (.inl rfl), hcolumns rfl⟩

end Session

end LinearProgram
