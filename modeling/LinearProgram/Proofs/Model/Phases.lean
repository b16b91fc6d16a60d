import LinearProgram.Proofs.Model.Sealed
import LinearProgram.Proofs.Model.Tables
import LinearProgram.Session
import LinearProgram.Solution

/-!
The two phases of a model. An open model has no columns and refuses whatever needs them; a sealed
one keeps its columns, and refuses whatever would change what they rest on. The model, its catalog
and each of its families record the phase, and they always agree.
-/

namespace LinearProgram

variable {κ : Type}

/-- A request that brings in index data, values or families, or that seals the model. -/
def Action.Loads : Action κ → Prop
  | .addLabels _ labels => labels ≠ []
  | .setLimit .. => True
  | .store .. => True
  | .storeLabelled .. => True
  | .declareFamily .. => True
  | .sealUp => True
  | _ => False

namespace Model

variable {m m' : Model κ} {sizes : List Nat} {a : Action κ}

/-! ### Open models -/

/-- A model without columns refuses as not sealed whatever it is asked about them. -/
structure Unflattened [Scalar κ] (m : Model κ) : Prop where
  columnCount : m.columnCount = 0
  exprAt : ∀ f ∈ m.families, ∀ coords, (f.exprAt m.catalog coords).RefusedAs .notSealed
  owner : ∀ j, (m.owner j).RefusedAs .notSealed
  columnName : ∀ j, (m.columnName j).RefusedAs .notSealed
  column : ∀ read j, (m.column read j).RefusedAs .notSealed
  columns : ∀ read, (m.columns read).RefusedAs .notSealed
  rows : m.rows.RefusedAs .notSealed
  flatObjective : m.flatObjective.RefusedAs .notSealed
  solve : ∀ solver, (m.solve solver).RefusedAs .notSealed
  write : ∀ (s : Session κ) (k : Nat) (sink : Sink), s.model k = .ok m → sink ≠ .missing →
    (s.write k sink).1.RefusedAs .notSealed

theorem whenSealed_of_open (h : m.isSealed = false) (view : View) :
    (m.whenSealed view).RefusedAs .notSealed := by
  refine ⟨.beforeSeal view, rfl, ?_⟩
  rw [whenSealed, if_neg (by simp [h])]

theorem exprAt_of_unplaced {f : Family κ} (h : f.start = none) (c : Catalog)
    (coords : List Nat) : (f.exprAt c coords).RefusedAs .notSealed := by
  refine ⟨.familyUnplaced f.name, rfl, ?_⟩
  rw [Family.exprAt, h]

theorem write_of_open [Scalar κ] {s : Session κ} {k : Nat} {sink : Sink}
    (h : m.isSealed = false) (hm : s.model k = .ok m) (hsink : sink ≠ .missing) :
    (s.write k sink).1.RefusedAs .notSealed := by
  have hopening : sink.opening = .ok () := by
    cases sink with
    | missing => exact (hsink rfl).elim
    | unlimited => rfl
    | upTo bytes => rfl
  have hcolumns : (s.columns k).RefusedAs .notSealed := by
    rw [Session.columns, hm, Outcome.ok_bind]
    exact (whenSealed_of_open h .columns).bind _
  obtain ⟨fault, hkind, hrefused⟩ := hcolumns
  refine ⟨fault, hkind, ?_⟩
  rw [Session.write, hopening, Outcome.ok_bind, hrefused]
  rfl

theorem Open.unflattened [Scalar κ] (h : m.Open) : m.Unflattened where
  columnCount := by
    rw [Model.columnCount, h.ends]
    rfl
  exprAt f hf coords := exprAt_of_unplaced (h.start f hf) m.catalog coords
  owner j := (whenSealed_of_open h.isSealed .owner).bind _
  columnName j := ((whenSealed_of_open h.isSealed .owner).bind _).bind _
  column read j := ((whenSealed_of_open h.isSealed .owner).bind _).bind _
  columns read := (whenSealed_of_open h.isSealed .columns).bind _
  rows := (whenSealed_of_open h.isSealed .rows).bind _
  flatObjective := (whenSealed_of_open h.isSealed .objective).bind _
  solve solver := (whenSealed_of_open h.isSealed .solution).bind _
  write s k sink := write_of_open h.isSealed

/-! ### Sealed models -/

/-- A sealed model with the index data, families and columns of another. -/
structure Fixed (m m' : Model κ) : Prop where
  isSealed : m'.isSealed = true
  catalog : m'.catalog = m.catalog
  families : m'.families = m.families
  columnCount : m'.columnCount = m.columnCount
  size : ∀ f ∈ m.families, f.size m'.catalog = f.size m.catalog

theorem LaidOut.fixed (h : m.LaidOut sizes) (hsame : m.SameData m') : m.Fixed m' := by
  refine ⟨hsame.isSealed.trans h.isSealed, hsame.catalog, hsame.families, ?_, fun f _ => ?_⟩
  · rw [Model.columnCount, hsame.ends, Model.columnCount]
  · rw [hsame.catalog]

theorem storeBy_of_unchanged (slot : Nat) {f : Parameter κ → Outcome Unit × Parameter κ}
    (h : ∀ p, ∃ e, f p = (.error e, p)) : ∃ e, m.storeBy slot f = (.error e, m) := by
  unfold storeBy
  split
  · exact ⟨_, rfl⟩
  · rename_i p hp
    obtain ⟨e, he⟩ := h p
    obtain ⟨hslot, rfl⟩ := List.getElem?_eq_some_iff.mp (parameter_eq_ok_iff.mp hp)
    refine ⟨e, ?_⟩
    rw [he]
    dsimp only
    rw [List.set_getElem_self]

/-- What would change the data that columns rest on is refused, and changes nothing. -/
theorem LaidOut.perform_of_loads (h : m.LaidOut sizes) (ha : a.Loads) :
    ∃ e, m.perform a = (.error e, m) := by
  have hfrozen := h.frozen
  cases a with
  | addLabels d labels =>
      cases labels with
      | nil => exact (ha rfl).elim
      | cons l ls =>
          rw [Model.perform, addLabels, Catalog.addLabel_of_frozen hfrozen]
          exact ⟨_, rfl⟩
  | setLimit marker v =>
      rw [Model.perform, setLimit, Catalog.setLimit_of_frozen hfrozen]
      exact ⟨_, rfl⟩
  | store slot coords v =>
      obtain ⟨e, he⟩ := m.storeBy_of_unchanged slot
        fun p => ⟨_, p.store_of_frozen hfrozen coords v⟩
      rw [Model.perform, store, he]
      exact ⟨e, rfl⟩
  | storeLabelled slot labels v =>
      obtain ⟨e, he⟩ := m.storeBy_of_unchanged slot
        fun p => p.storeLabelled_of_frozen hfrozen labels v
      rw [Model.perform, storeLabelled, he]
      exact ⟨e, rfl⟩
  | declareFamily name space domain =>
      rw [Model.perform, declareFamily, if_pos h.isSealed]
      exact ⟨_, rfl⟩
  | sealUp =>
      rw [Model.perform, sealUp_of_sealed h.isSealed]
      exact ⟨_, rfl⟩
  | _ => exact ha.elim

/-! ### Phases -/

/-- The model, its catalog and its families record the same phase. -/
structure InStep (m : Model κ) : Prop where
  catalog : m.isSealed = true ↔ m.catalog.frozen = true
  families : ∀ f ∈ m.families, f.start.isSome = true ↔ m.isSealed = true

theorem Open.inStep (h : m.Open) : m.InStep := by
  refine ⟨by rw [h.isSealed, h.frozen], fun f hf => ?_⟩
  rw [h.start f hf, h.isSealed]
  rfl

theorem LaidOut.inStep (h : m.LaidOut sizes) : m.InStep := by
  refine ⟨by rw [h.isSealed, h.frozen], fun f hf => ?_⟩
  obtain ⟨i, hi, rfl⟩ := List.getElem_of_mem hf
  rw [h.start i _ (List.getElem?_eq_getElem hi), h.isSealed]
  rfl

/-- After every history the model, its catalog and its families are in the same phase. As long as
it is open it has no columns; once it is sealed, whatever follows, its index data, families and
columns stay as they are, and requests to change them are refused. -/
theorem phases_of_history [Scalar κ] (name : Option String) {history : List (Action κ)}
    (hordinary : ∀ a ∈ history, a.Ordinary) :
    let m := (Model.empty name).run history
    m.InStep
      ∧ (m.isSealed = false → m.Unflattened)
      ∧ (m.isSealed = true → ∀ later : List (Action κ),
        let m' := m.run later
        m.Fixed m' ∧ ∀ a : Action κ, a.Loads → ∃ e, m'.perform a = (.error e, m')) := by
  intro m
  have hm : m.Reachable := ⟨name, history, hordinary, rfl⟩
  rcases hm.open_or_laidOut with hopen | ⟨sizes, hlaid⟩
  · refine ⟨hopen.inStep, fun _ => hopen.unflattened, fun hsealed => ?_⟩
    cases hopen.isSealed.symm.trans hsealed
  · refine ⟨hlaid.inStep, fun hopen => ?_, fun _ later => ⟨?_, fun a ha => ?_⟩⟩
    · cases hlaid.isSealed.symm.trans hopen
    · exact hlaid.fixed (hlaid.sameData_run later)
    · exact (hlaid.run later).perform_of_loads ha

/-- A model with a set, a range, a parameter with a value and two families. -/
def openHistory : List (Action Rat) :=
  [.addLabels ⟨"A", .labelled⟩ ["a", "b"],
    .setLimit "T" 4,
    .declareParameter (some "p") [⟨"A", .labelled⟩] .free 1,
    .storeLabelled 0 ["b"] 3,
    .declareFamily (some "x") [⟨"A", .labelled⟩, ⟨"R", .range 3 (.limit "T")⟩] .free,
    .declareFamily none [] (.atLeast (.const 0))]

theorem phases_of_openHistory :
    (∀ a ∈ openHistory ++ [.sealUp], a.Ordinary)
      ∧ ((Model.empty none).run openHistory).Unflattened
      ∧ let m := (Model.empty none).run (openHistory ++ [.sealUp])
        let m' := m.run [.setLimit "T" 9, .store 0 [0] 7]
        m.Fixed m' ∧ ∃ e, m'.perform (.addLabels ⟨"A", .labelled⟩ ["c"]) = (.error e, m') := by
  have hordinary : ∀ a ∈ openHistory ++ [.sealUp], a.Ordinary := by
    simp [openHistory, Action.Ordinary]
  obtain ⟨-, hopen, -⟩ := phases_of_history none (List.forall_mem_append.mp hordinary).1
  obtain ⟨-, -, hsealed⟩ := phases_of_history none hordinary
  obtain ⟨hfixed, hrefused⟩ := hsealed (by decide) [.setLimit "T" 9, .store 0 [0] 7]
  exact ⟨hordinary, hopen (by decide), hfixed, hrefused _ (List.cons_ne_nil _ _)⟩

end Model

end LinearProgram
