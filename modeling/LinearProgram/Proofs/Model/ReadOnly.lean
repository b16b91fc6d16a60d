import LinearProgram.Proofs.Model.Columns
import LinearProgram.Proofs.Model.Phases
import LinearProgram.Proofs.Session

/-!
Input data of a sealed model. What has been stored in parameters is read-only from sealing on, and
so are the columns as far as they rest on it. The default of a parameter is not: it can be replaced
at any time, and a parameter without data reads as it, also where it is the bound of a column.
-/

namespace LinearProgram

variable {κ : Type}

/-- The default that a request sets for a parameter. -/
def Action.defaultFor? (slot : Nat) : Action κ → Option κ
  | .setDefault s v => if s = slot then some v else none
  | _ => none

/-- The default that a history sets last for a parameter. -/
def lastDefault? (slot : Nat) (history : List (Action κ)) : Option κ :=
  (history.filterMap (Action.defaultFor? slot)).getLast?

theorem Action.defaultFor?_eq_some {slot : Nat} {a : Action κ} {v : κ}
    (h : a.defaultFor? slot = some v) : a = .setDefault slot v := by
  cases a with
  | setDefault s w =>
      rw [defaultFor?] at h
      split at h
      · rename_i hs
        rw [hs, Option.some.inj h]
      · cases h
  | _ => cases h

theorem lastDefault?_append (slot : Nat) (history : List (Action κ)) (a : Action κ) :
    lastDefault? slot (history ++ [a])
      = (a.defaultFor? slot).or (lastDefault? slot history) :=
  Model.getLast?_filterMap_append _ history a

namespace Model

variable {m : Model κ} {sizes : List Nat} {slot : Nat} {p : Parameter κ}

/-! ### Parameters -/

theorem parameters_setDefault (hp : m.parameters[slot]? = some p) (v : κ) :
    (m.perform (.setDefault slot v)).2.parameters = m.parameters.set slot (p.setDefault v) := by
  rw [perform, Model.setDefault, parameter_eq_ok_iff.mpr hp]
  rfl

/-- Only its default changes when a request is made of a sealed model. -/
theorem LaidOut.parameter_perform (h : m.LaidOut sizes) (hp : m.parameters[slot]? = some p)
    (a : Action κ) : (m.perform a).2.parameters[slot]?
      = some (p.setDefault ((a.defaultFor? slot).getD p.fallback)) := by
  cases hdefault : a.defaultFor? slot with
  | some v =>
      rw [Action.defaultFor?_eq_some hdefault, parameters_setDefault hp]
      exact List.getElem?_set_self (List.getElem?_eq_some_iff.mp hp).1
  | none =>
      change _ = some p
      have hstep := m.perform_tableStep a
      generalize hps : (m.perform a).2.parameters = ps at hstep ⊢
      cases hstep with
      | keep => exact hp
      | declare => rw [List.getElem?_append_left (List.getElem?_eq_some_iff.mp hp).1, hp]
      | @setDefault s v q hq =>
          have hne : s ≠ slot := by
            rintro rfl
            rw [Action.defaultFor?, if_pos rfl] at hdefault
            cases hdefault
          rw [List.getElem?_set_ne hne, hp]
      -- a frozen catalog takes no stores: the whole model is left as it was
      | @store s coords v q hq =>
          obtain ⟨e, he⟩ := h.perform_of_loads (a := .store s coords v) trivial
          rw [← hps, he, hp]
      | @storeLabelled s labels v q hq =>
          obtain ⟨e, he⟩ := h.perform_of_loads (a := .storeLabelled s labels v) trivial
          rw [← hps, he, hp]

/-- Of a parameter of a sealed model only the default changes, to the last one that is set. -/
theorem LaidOut.parameter_run (h : m.LaidOut sizes) (hp : m.parameters[slot]? = some p)
    (later : List (Action κ)) : (m.run later).parameters[slot]?
      = some (p.setDefault ((lastDefault? slot later).getD p.fallback)) := by
  induction later using List.reverseRecOn with
  | nil => exact hp
  | append_singleton later a ih =>
      have hlast := (h.run later).parameter_perform ih a
      rw [run_append, lastDefault?_append]
      refine hlast.trans ?_
      cases a.defaultFor? slot with
      | some v => rfl
      | none => rfl

/-! ### Reads and columns -/

variable [Scalar κ]

/-- A parameter that has values reads as before, one that has none as its present default. -/
theorem LaidOut.read_run (h : m.LaidOut sizes) {s : Session κ} {k : Nat}
    (hm : s.model k = .ok m) (hp : m.parameter slot = .ok p) (later : List (Action κ))
    (coords : List Nat) : (s.run k later).read ⟨k, slot⟩ coords
      = if p.populated then s.read ⟨k, slot⟩ coords
        else .ok ((lastDefault? slot later).getD p.fallback) := by
  have hp' := parameter_eq_ok_iff.mpr (h.parameter_run (parameter_eq_ok_iff.mp hp) later)
  rw [Session.read_of_model (Session.model_run hm later) hp', (h.sameData_run later).catalog,
    Session.read_of_model hm hp]
  split
  · rename_i hpopulated
    exact Parameter.read_setDefault hpopulated _
  · rename_i hunpopulated
    exact Parameter.read_of_unpopulated (Bool.eq_false_iff.mpr hunpopulated)

/-- After sealing, whatever follows: parameters keep all but their defaults, so that one with values
reads as before, and one without as the last default. The columns stay what they were, unless one
of their bounds reads a parameter without values whose default is replaced. -/
theorem inputs_of_sealed_history (name : Option String) (history later : List (Action κ))
    (hsealed : ((Model.empty name).run history).isSealed = true) {s : Session κ} {k : Nat}
    (hs : s.model k = .ok ((Model.empty name).run history)) :
    let m := (Model.empty name).run history
    let s' := s.run k later
    (∀ (slot : Nat) (p : Parameter κ), m.parameter slot = .ok p →
      s'.parameter ⟨k, slot⟩ = .ok (p.setDefault ((lastDefault? slot later).getD p.fallback))
        ∧ ∀ coords, s'.read ⟨k, slot⟩ coords
          = if p.populated then s.read ⟨k, slot⟩ coords
            else .ok ((lastDefault? slot later).getD p.fallback))
      ∧ ((∀ f ∈ m.families, ∀ ref, f.domain.Reads ref → ref.model = k →
          ∃ p, m.parameter ref.slot = .ok p
            ∧ (p.populated = true ∨ lastDefault? ref.slot later = none)) →
        s'.columns k = s.columns k) := by
  intro m s'
  obtain ⟨sizes, hlaid⟩ : ∃ sizes, m.LaidOut sizes := laidOut_of_sealed hsealed
  have hs' : s'.model k = .ok (m.run later) := Session.model_run hs later
  refine ⟨fun slot p hp => ⟨?_, hlaid.read_run hs hp later⟩, fun hbounds => ?_⟩
  · rw [Session.parameter, hs', Outcome.ok_bind]
    exact parameter_eq_ok_iff.mpr (hlaid.parameter_run (parameter_eq_ok_iff.mp hp) later)
  rw [Session.columns, Session.columns, hs', hs, Outcome.ok_bind, Outcome.ok_bind]
  apply (hlaid.sameData_run later).sameView.columns_eq
  rintro f hf ⟨k', slot⟩ href coords
  by_cases hk : k' = k
  · subst hk
    obtain ⟨p, hp, hkept⟩ := hbounds f hf _ href rfl
    rw [hlaid.read_run hs hp later]
    rcases hkept with hpopulated | hnone
    · rw [if_pos hpopulated]
    · split
      · rfl
      rename_i hunpopulated
      rw [hnone, Session.read_of_model hs hp]
      exact (Parameter.read_of_unpopulated (Bool.eq_false_iff.mpr hunpopulated)).symm
  · exact Session.read_congr (Session.model_run_of_ne hk later) coords

/-- A variable that is bounded by a parameter, with what is loaded into it. -/
def defaultHistory (loads : List (Action Rat)) : List (Action Rat) :=
  .declareParameter (some "p") [] .free 5 :: loads
    ++ [.declareFamily (some "x") [] (.atLeast (.parameter ⟨0, 0⟩)), .sealUp]

/-- A session with that model alone. -/
def defaultSession (loads : List (Action Rat)) : Session Rat :=
  ⟨[(Model.empty none).run (defaultHistory loads)], []⟩

theorem inputs_of_defaultHistory :
    let history := defaultHistory [.store 0 [] 9]
    let s := defaultSession [.store 0 [] 9]
    let s' := s.run 0 [.setDefault 0 7]
    ((Model.empty none).run history).isSealed = true
      ∧ s.model 0 = .ok ((Model.empty none).run history)
      ∧ (∀ coords, s'.read ⟨0, 0⟩ coords = s.read ⟨0, 0⟩ coords)
      ∧ s'.columns 0 = s.columns 0 := by
  intro history s s'
  have hsealed : ((Model.empty none).run history).isSealed = true := by decide
  have hs : s.model 0 = .ok ((Model.empty none).run history) := rfl
  obtain ⟨hread, hcolumns⟩ := inputs_of_sealed_history none history [.setDefault 0 7] hsealed hs
  refine ⟨hsealed, hs, (hread 0 _ rfl).2, hcolumns ?_⟩
  rintro f hf ref href -
  obtain rfl := List.mem_singleton.mp hf
  cases href with
  | lower hside hheld =>
      cases hside
      obtain rfl := List.mem_singleton.mp hheld
      exact ⟨_, rfl, .inl rfl⟩
  | upper hside hheld => cases hside

/-- A default that is set after sealing changes what a parameter without values reads as, and the
column that it bounds. -/
theorem columns_of_lateDefault :
    let s := defaultSession []
    let s' := s.run 0 [.setDefault 0 7]
    ((Model.empty none).run (defaultHistory [])).isSealed = true
      ∧ s.model 0 = .ok ((Model.empty none).run (defaultHistory []))
      ∧ s.read ⟨0, 0⟩ [] = .ok 5
      ∧ s.columns 0 = .ok [⟨"x", .atLeast 5, false⟩]
      ∧ s'.read ⟨0, 0⟩ [] = .ok 7
      ∧ s'.columns 0 = .ok [⟨"x", .atLeast 7, false⟩] :=
  ⟨by decide, rfl, rfl, rfl, rfl, rfl⟩

/-- A closure that turns a parameter round follows it. -/
example :
    let negated : BoundRule Rat :=
      ⟨[⟨0, 0⟩], fun read coords => do return -(← read ⟨0, 0⟩ coords), fun h => by simp [h]⟩
    let s : Session Rat := ⟨[(Model.empty none).run [.declareParameter (some "p") [] .free 5,
      .declareFamily (some "x") [] (.atLeast negated), .sealUp]], []⟩
    s.columns 0 = .ok [⟨"x", .atLeast (-5), false⟩]
      ∧ (s.run 0 [.setDefault 0 7]).columns 0 = .ok [⟨"x", .atLeast (-7), false⟩] := ⟨rfl, rfl⟩

end Model

end LinearProgram
