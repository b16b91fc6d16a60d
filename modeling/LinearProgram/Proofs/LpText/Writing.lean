import LinearProgram.Proofs.LpText.Problem
import LinearProgram.Proofs.Model.Rows
import LinearProgram.Proofs.Scalar.Text
import LinearProgram.Session

/-!
Writing a model. A model is written as the text of the problem that it is flattened into. Main
statement: two models of any sessions that are written as the same text, under titles without line
breaks and with names that differ from column to column, have been flattened into the same problem.
-/

namespace LinearProgram

variable {κ : Type} [Scalar κ]

namespace Model

variable {m : Model κ} {owner : Option String} {entries : List (Nat × κ)}

omit [Scalar κ] in
theorem lt_columnCount_of_checkEntries (h : m.checkEntries owner entries = .ok ()) :
    ∀ e ∈ entries, e.1 < m.columnCount := by
  by_contra hstray
  obtain ⟨fault, -, hrefused⟩ : (m.checkEntries owner entries).RefusedAs .invalidIndex :=
    checkEntries_of_stray hstray
  cases h.symm.trans hrefused

theorem lt_columnCount_of_row {c : NamedConstraint κ} {r : Row κ} (h : m.row c = .ok r) :
    ∀ e ∈ r.entries, e.1 < m.columnCount := by
  obtain ⟨f, -, hrest⟩ := Outcome.bind_eq_ok_iff.mp h
  obtain ⟨⟨⟩, hcheck, heq⟩ := Outcome.bind_eq_ok_iff.mp hrest
  cases heq
  exact lt_columnCount_of_checkEntries hcheck

theorem lt_columnCount_of_rows {rows : List (Row κ)} (h : m.rows = .ok rows) :
    ∀ r ∈ rows, ∀ e ∈ r.entries, e.1 < m.columnCount := by
  obtain ⟨⟨⟩, -, hrows⟩ := Outcome.bind_eq_ok_iff.mp h
  intro r hr
  obtain ⟨c, -, hrow⟩ := Outcome.exists_of_mem_mapM hrows hr
  exact lt_columnCount_of_row hrow

theorem lt_columnCount_of_flatObjective {o : FlatObjective κ} (h : m.flatObjective = .ok o) :
    ∀ e ∈ o.entries, e.1 < m.columnCount := by
  obtain ⟨⟨⟩, -, hrest⟩ := Outcome.bind_eq_ok_iff.mp h
  obtain ⟨f, -, hrest⟩ := Outcome.bind_eq_ok_iff.mp hrest
  obtain ⟨⟨⟩, hcheck, heq⟩ := Outcome.bind_eq_ok_iff.mp hrest
  cases heq
  exact lt_columnCount_of_checkEntries hcheck

theorem length_columns {read : Reader κ} {columns : List (Column κ)}
    (h : m.columns read = .ok columns) : columns.length = m.columnCount := by
  obtain ⟨⟨⟩, -, hcolumns⟩ := Outcome.bind_eq_ok_iff.mp h
  rw [← (Outcome.mapM_eq_ok_iff.mp hcolumns).length_eq, List.length_range]

end Model

namespace Session

variable {s : Session κ} {k : Nat} {m : Model κ} {sink : Sink} {text : String} {p : Problem κ}

/-- What a model of a session is flattened into. -/
def problem (k : Nat) (s : Session κ) : Outcome (Problem κ) := do
  let columns ← s.columns k
  let m ← s.model k
  return ⟨columns, ← m.rows, ← m.flatObjective⟩

/-- A problem is put together from the columns, the rows and the objective of the model. -/
theorem parts_of_problem (h : s.problem k = .ok p) :
    s.columns k = .ok p.columns
      ∧ ∃ m, s.model k = .ok m ∧ m.rows = .ok p.rows ∧ m.flatObjective = .ok p.objective := by
  obtain ⟨columns, hcolumns, h⟩ := Outcome.bind_eq_ok_iff.mp h
  obtain ⟨m, hm, h⟩ := Outcome.bind_eq_ok_iff.mp h
  obtain ⟨rows, hrows, h⟩ := Outcome.bind_eq_ok_iff.mp h
  obtain ⟨o, ho, heq⟩ := Outcome.bind_eq_ok_iff.mp h
  cases heq
  exact ⟨hcolumns, m, hm, hrows, ho⟩

theorem within_of_problem (h : s.problem k = .ok p) : p.Within := by
  obtain ⟨hcolumns, m, hm, hrows, ho⟩ := parts_of_problem h
  rw [Session.columns, hm, Outcome.ok_bind] at hcolumns
  have hlength := Model.length_columns hcolumns
  exact ⟨hlength ▸ Model.lt_columnCount_of_rows hrows,
    hlength ▸ Model.lt_columnCount_of_flatObjective ho⟩

theorem rows_of_model (hm : s.model k = .ok m) : (s.rows k).1 = m.rows := by
  unfold rows
  rw [hm, Outcome.ok_bind]
  cases m.rows <;> rfl

theorem model_rows (s : Session κ) (k : Nat) : (s.rows k).2.model k = s.model k := by
  unfold rows
  dsimp only
  split <;> rfl

/-- What is written is the text of the problem. -/
theorem problem_of_write (hm : s.model k = .ok m) (h : (s.write k sink).1 = .ok text) :
    ∃ p, s.problem k = .ok p ∧ p.text m.name = text := by
  unfold write at h
  dsimp only at h
  split at h
  · cases h
  rename_i columns hstart
  obtain ⟨⟨⟩, -, hcolumns⟩ := Outcome.bind_eq_ok_iff.mp hstart
  split at h
  · cases h
  rename_i text' n htext
  cases h
  rw [rows_of_model hm, model_rows, hm] at htext
  obtain ⟨rows, hrows, htext⟩ := Outcome.bind_eq_ok_iff.mp htext
  rw [Outcome.ok_bind] at htext
  obtain ⟨o, ho, htext⟩ := Outcome.bind_eq_ok_iff.mp htext
  obtain ⟨⟨⟩, -, heq⟩ := Outcome.bind_eq_ok_iff.mp htext
  cases heq
  refine ⟨⟨columns, rows, o⟩, ?_, rfl⟩
  rw [problem, hcolumns, Outcome.ok_bind, hm, Outcome.ok_bind, hrows, Outcome.ok_bind, ho]
  rfl

theorem notMem_titleLine {title : Option String} (h : ∀ t ∈ title, '\n' ∉ t.toList) :
    '\n' ∉ (LpText.titleLine title).toList := by
  have htitle : '\n' ∉ (title.getD "model").toList := by
    cases title with
    | none => decide
    | some t => exact h t rfl
  rw [LpText.titleLine, String.toList_append, List.mem_append]
  exact not_or.mpr ⟨by decide, htitle⟩

/-- Two models that are written as the same text have been flattened into the same problem: sense,
objective and bounds are equal as floats, and rows are told apart by their names in LP text. -/
theorem same_problem_of_same_text {s s' : Session Float} {k k' : Nat} {m m' : Model Float}
    {sink sink' : Sink} {text : String} (hm : s.model k = .ok m) (hm' : s'.model k' = .ok m')
    (htitle : ∀ t ∈ m.name, '\n' ∉ t.toList) (htitle' : ∀ t ∈ m'.name, '\n' ∉ t.toList)
    (hnames : ∀ columns, s.columns k = .ok columns →
      (columns.map fun c => LpText.name c.name).Nodup)
    (hwrite : (s.write k sink).1 = .ok text) (hwrite' : (s'.write k' sink').1 = .ok text) :
    ∃ p p', s.problem k = .ok p ∧ s'.problem k' = .ok p' ∧ p.Same (-(1 / 0)) (1 / 0) p' := by
  obtain ⟨p, hp, htext⟩ := problem_of_write hm hwrite
  obtain ⟨p', hp', htext'⟩ := problem_of_write hm' hwrite'
  have hpieces := Problem.pieces_eq_of_text_eq (notMem_titleLine htitle)
    (notMem_titleLine htitle')
    (htext.trans htext'.symm)
  have hnodup : p.names.Nodup := hnames p.columns (parts_of_problem hp).1
  exact ⟨p, p', hp, hp', Problem.same_of_pieces_eq rfl _ (within_of_problem hp)
    (within_of_problem hp') hnodup hpieces⟩

/-- A column bounded above and a row between two bounds. -/
def wholeModel : Model Float :=
  (Model.empty (some "plan")).run
    [.declareFamily (some "x y") [] (.atMost (.const 4)),
      .sealUp,
      .constrain (some "r") (.ranged (.term ⟨⟨0, 0⟩, 3⟩) 1 2)]

/-- The same with the missing bound written out, a row for each bound and a name of other
characters. -/
def splitModel : Model Float :=
  (Model.empty (some "plan")).run
    [.declareFamily (some "x-y") [] (.between (.const (-(1 / 0))) (.const 4)),
      .sealUp,
      .constrain (some "r.lo") (.bounded (.term ⟨⟨0, 0⟩, 3⟩) 1 .atLeast),
      .constrain (some "r.hi") (.bounded (.term ⟨⟨0, 0⟩, 3⟩) 2 .atMost)]

/-- What the first model is flattened into. -/
def wholeProblem : Problem Float :=
  ⟨[⟨"x y", .atMost 4, false⟩], [⟨"r", .between 1 2, [(0, 3)]⟩], ⟨"obj", .minimize, [], 0⟩⟩

/-- What the second model is flattened into. -/
def splitProblem : Problem Float :=
  ⟨[⟨"x-y", .between (-(1 / 0)) 4, false⟩],
    [⟨"r.lo", .atLeast 1, [(0, 3)]⟩, ⟨"r.hi", .atMost 2, [(0, 3)]⟩], ⟨"obj", .minimize, [], 0⟩⟩

theorem same_problem_of_splitModel :
    ((Session.mk [wholeModel] []).write 0 .unlimited).1 = .ok (wholeProblem.text (some "plan"))
      ∧ ((Session.mk [splitModel] []).write 0 .unlimited).1
        = .ok (wholeProblem.text (some "plan"))
      ∧ (∀ t ∈ some "plan", '\n' ∉ t.toList) ∧ wholeProblem.names.Nodup
      ∧ wholeProblem.Same (-(1 / 0)) (1 / 0) splitProblem := by
  have hwhole : (Session.mk [wholeModel] []).problem 0 = .ok wholeProblem := rfl
  have hsplit : (Session.mk [splitModel] []).problem 0 = .ok splitProblem := rfl
  have htext : splitProblem.text (some "plan") = wholeProblem.text (some "plan") := by
    decide +kernel
  have hwrite : ((Session.mk [wholeModel] []).write 0 .unlimited).1
      = .ok (wholeProblem.text (some "plan")) := rfl
  have hwrite' : ((Session.mk [splitModel] []).write 0 .unlimited).1
      = .ok (splitProblem.text (some "plan")) := rfl
  have htitle : ∀ t ∈ some "plan", '\n' ∉ t.toList := by decide
  have hnodup : wholeProblem.names.Nodup := by decide
  have hmodel : (Session.mk [wholeModel] []).model 0 = .ok wholeModel := rfl
  have hmodel' : (Session.mk [splitModel] []).model 0 = .ok splitModel := rfl
  have hnames : ∀ columns, (Session.mk [wholeModel] []).columns 0 = .ok columns →
      (columns.map fun c => LpText.name c.name).Nodup := by
    intro columns hcolumns
    cases (parts_of_problem hwhole).1.symm.trans hcolumns
    exact hnodup
  rw [htext] at hwrite'
  obtain ⟨p, p', hp, hp', hsame⟩ := same_problem_of_same_text hmodel hmodel' htitle htitle hnames
    hwrite hwrite'
  cases hwhole.symm.trans hp
  cases hsplit.symm.trans hp'
  exact ⟨hwrite, hwrite', htitle, hnodup, hsame⟩

end Session

end LinearProgram
