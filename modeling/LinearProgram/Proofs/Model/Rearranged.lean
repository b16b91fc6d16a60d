import LinearProgram.Proofs.Model.Columns
import LinearProgram.Proofs.Model.Sealed
import LinearProgram.Proofs.Model.Tables

/-!
Preparations in another order. The labels, limits and families that a model is given determine its
columns, and what it has been given can be read off its history kind by kind. So it does not matter
how requests of different kinds follow each other, or what is loaded in between.
-/

namespace LinearProgram

variable {κ : Type}

/-! ### What a request gives to a model -/

namespace Action

/-- A request of the time before sealing that leaves the placing of families to it. -/
def Preparatory : Action κ → Prop
  | .placeFamily .. => False
  | .sealUp => False
  | _ => True

def labelsFor (d : Dimension) : Action κ → List String
  | .addLabels e labels => if e = d then labels else []
  | _ => []

def limitFor? (marker : Marker) : Action κ → Option Int
  | .setLimit other v => if other = marker then some v else none
  | _ => none

/-- The name, if there is one, the space and the domain of the family that is declared. -/
def declaration? : Action κ → Option (Option String × Space × Domain κ)
  | .declareFamily name space domain => some (name, space, domain)
  | _ => none

end Action

/-- The family that a declaration makes in the given place. -/
def Family.declared (place : Nat) : Option String × Space × Domain κ → Family κ
  | (name, space, domain) => ⟨name.getD s!"x{place}", space, domain, none⟩

/-- Two histories that declare the same families in the same order, give each set the same labels
in the same order, and set each limit to the same value last. -/
structure Rearranged (history history' : List (Action κ)) : Prop where
  declarations : history'.filterMap Action.declaration? = history.filterMap Action.declaration?
  labels : ∀ d : Dimension, d.extent = .labelled →
    history'.flatMap (Action.labelsFor d) = history.flatMap (Action.labelsFor d)
  limits : ∀ marker, (history'.filterMap (Action.limitFor? marker)).getLast?
    = (history.filterMap (Action.limitFor? marker)).getLast?

namespace Model

variable {m m' : Model κ} {history history' : List (Action κ)} {a : Action κ}

/-! ### What a model has been given -/

/-- An open model that holds what the given history brings in, and no more. -/
structure Prepared (history : List (Action κ)) (m : Model κ) : Prop where
  unsealed : m.Unsealed
  labels : ∀ d, m.catalog.labels d = history.flatMap (Action.labelsFor d)
  limit : ∀ marker, m.catalog.limit? marker
    = (history.filterMap (Action.limitFor? marker)).getLast?
  families : m.families = (history.filterMap Action.declaration?).mapIdx Family.declared

/-- A request that brings in neither labels nor limits nor families. -/
structure Extraneous (a : Action κ) : Prop where
  labels : ∀ d, a.labelsFor d = []
  limit : ∀ marker, a.limitFor? marker = none
  declaration : a.declaration? = none

theorem commit_eq_ok {added added' : List Nat} {o : Outcome (Model κ)}
    (h : (m.commit added o).1 = .ok added') : o = .ok (m.commit added o).2 := by
  cases o with
  | error e => cases h
  | ok m' => rfl

theorem declarations_append (h : a.declaration? = none) :
    (history ++ [a]).filterMap Action.declaration? = history.filterMap Action.declaration? := by
  rw [List.filterMap_append, List.filterMap_cons_none h, List.filterMap_nil, List.append_nil]

namespace Prepared

theorem keep (h : m.Prepared history) (hsame : m.SameData m') (ha : Extraneous a) :
    m'.Prepared (history ++ [a]) := by
  refine ⟨h.unsealed.of_sameLayout hsame.sameLayout, fun d => ?_, fun marker => ?_, ?_⟩
  · rw [hsame.catalog, h.labels, List.flatMap_append, List.flatMap_singleton, ha.labels,
      List.append_nil]
  · rw [hsame.catalog, h.limit, getLast?_filterMap_append, ha.limit, Option.none_or]
  · rw [hsame.families, h.families, declarations_append ha.declaration]

theorem addLabels (h : m.Prepared history) {d : Dimension} {ls : List String} {added : List Nat}
    (hdone : (m.addLabels d ls).1 = .ok added) :
    (m.addLabels d ls).2.Prepared (history ++ [.addLabels d ls]) := by
  have hsame := SameLayout.addLabels d ls m
  refine ⟨h.unsealed.of_sameLayout hsame, fun e => ?_, fun marker => ?_, ?_⟩
  · rw [labels_addLabels hdone, h.labels, List.flatMap_append, List.flatMap_singleton,
      Action.labelsFor]
  · rw [Catalog.limit?, hsame.catalog.limits_eq, getLast?_filterMap_append]
    exact h.limit marker
  · rw [hsame.families, h.families, declarations_append rfl]

theorem setLimit (h : m.Prepared history) {marker : Marker} {v : Int}
    (hdone : m.setLimit marker v = .ok m') : m'.Prepared (history ++ [.setLimit marker v]) := by
  obtain ⟨c, hc, rfl⟩ := setLimit_eq_ok hdone
  have hlimit := Catalog.limit?_setLimit hc
  obtain ⟨hopen, rfl⟩ := Catalog.setLimit_eq_ok hc
  refine ⟨⟨h.unsealed.isSealed, hopen, h.unsealed.ends⟩, fun d => ?_, fun other => ?_, ?_⟩
  · rw [List.flatMap_append, ← h.labels d]
    simp [Action.labelsFor, Catalog.labels]
  · rw [getLast?_filterMap_append, ← h.limit other, Action.limitFor?]
    dsimp only
    rw [hlimit other]
    by_cases hmarker : marker = other
    · rw [if_pos hmarker, if_pos hmarker, Option.some_or]
    · rw [if_neg hmarker, if_neg hmarker, Option.none_or]
  · rw [declarations_append rfl]
    exact h.families

theorem declareFamily (h : m.Prepared history) {name : Option String} {space : Space}
    {domain : Domain κ} (hdone : m.declareFamily name space domain = .ok m') :
    m'.Prepared (history ++ [.declareFamily name space domain]) := by
  obtain ⟨-, -, rfl⟩ := declareFamily_eq_ok hdone
  refine ⟨⟨h.unsealed.isSealed, h.unsealed.frozen, h.unsealed.ends⟩, fun d => ?_,
    fun marker => ?_, ?_⟩
  · rw [List.flatMap_append, ← h.labels d]
    simp [Action.labelsFor]
  · rw [getLast?_filterMap_append, ← h.limit marker]
    rfl
  · have hlength : m.families.length = (history.filterMap Action.declaration?).length := by
      rw [h.families, List.length_mapIdx]
    have hdeclared : (history ++ [Action.declareFamily name space domain]).filterMap
        Action.declaration? = history.filterMap Action.declaration? ++ [(name, space, domain)] := by
      rw [List.filterMap_append]
      rfl
    rw [hdeclared, List.mapIdx_concat, ← hlength, ← h.families]
    rfl

/-- What a request gives is added to what the history before it has given. -/
theorem perform {added : List Nat} (h : m.Prepared history) (ha : a.Preparatory)
    (hdone : (m.perform a).1 = .ok added) : (m.perform a).2.Prepared (history ++ [a]) := by
  cases a with
  | addLabels d ls => exact h.addLabels hdone
  | setLimit marker v => exact h.setLimit (commit_eq_ok hdone)
  | declareParameter name space domain fallback =>
      exact h.keep ⟨rfl, rfl, rfl, rfl⟩ ⟨fun _ => rfl, fun _ => rfl, rfl⟩
  | setDefault slot v =>
      exact h.keep (setDefault_sameData (commit_eq_ok hdone)) ⟨fun _ => rfl, fun _ => rfl, rfl⟩
  | store slot coords v =>
      exact h.keep (.storeBy slot _ m) ⟨fun _ => rfl, fun _ => rfl, rfl⟩
  | storeLabelled slot labels v =>
      exact h.keep (.storeBy slot _ m) ⟨fun _ => rfl, fun _ => rfl, rfl⟩
  | declareFamily name space domain => exact h.declareFamily (commit_eq_ok hdone)
  | placeFamily slot start => exact ha.elim
  | sealUp => exact ha.elim
  | constrain name c => exact h.keep ⟨rfl, rfl, rfl, rfl⟩ ⟨fun _ => rfl, fun _ => rfl, rfl⟩
  | constrainEach name space body =>
      exact h.keep (constrainEach_sameData (commit_eq_ok hdone))
        ⟨fun _ => rfl, fun _ => rfl, rfl⟩
  | setObjective name sense e =>
      exact h.keep ⟨rfl, rfl, rfl, rfl⟩ ⟨fun _ => rfl, fun _ => rfl, rfl⟩

/-- Models that have been given the same have the same families over dimensions with the same
members. -/
theorem sameView (h : m.Prepared history) (h' : m'.Prepared history')
    (hsame : Rearranged history history') : m.SameView m' := by
  refine ⟨?_, ?_, ?_, ?_⟩
  · rw [h.families, h'.families, hsame.declarations]
  · rw [h.unsealed.ends, h'.unsealed.ends]
  · rw [h.unsealed.isSealed, h'.unsealed.isSealed]
  · apply Catalog.agree_of_data
    · intro d hextent
      rw [h.labels, h'.labels, hsame.labels d hextent]
    · intro name
      rw [h.limit, h'.limit, hsame.limits]

/-- Sealing adds no bound. -/
theorem not_reads (h : m.Prepared history)
    (hbounds : ∀ declaration ∈ history.filterMap Action.declaration?,
      ∀ ref, ¬declaration.2.2.Reads ref) :
    ∀ f ∈ m.sealUp.2.families, ∀ ref, ¬f.domain.Reads ref := by
  intro f hf ref href
  obtain ⟨g, hg, heq⟩ := exists_of_mem_sealUp hf
  rw [h.families, List.mem_mapIdx] at hg
  obtain ⟨i, hi, rfl⟩ := hg
  rw [heq] at href
  exact hbounds _ (List.getElem_mem hi) ref href

end Prepared

/-! ### Runs -/

/-- All requests of a history are carried out. -/
def CarriedOut (m : Model κ) (history : List (Action κ)) : Prop :=
  ∀ step ∈ m.trace history, (step.1.perform step.2).1.isOk = true

instance (m : Model κ) (history : List (Action κ)) : Decidable (m.CarriedOut history) :=
  inferInstanceAs (Decidable (∀ step ∈ m.trace history, (step.1.perform step.2).1.isOk = true))

variable [Scalar κ]

theorem prepared_run (name : Option String) {history : List (Action κ)}
    (hpreparatory : ∀ a ∈ history, a.Preparatory)
    (hdone : (Model.empty name).CarriedOut history) :
    ((Model.empty name).run history).Prepared history := by
  -- on the last request, since `Prepared` reads a history off from its start
  induction history using List.reverseRecOn with
  | nil => exact ⟨⟨rfl, rfl, rfl⟩, fun _ => rfl, fun _ => rfl, rfl⟩
  | append_singleton history a ih =>
      obtain ⟨hbefore, ha⟩ := List.forall_mem_append.mp hpreparatory
      rw [CarriedOut, trace_append_singleton] at hdone
      obtain ⟨hfirst, hlast⟩ := List.forall_mem_append.mp hdone
      have hok := List.forall_mem_singleton.mp hlast
      rw [run_append]
      cases hanswer : (((Model.empty name).run history).perform a).1 with
      | error e =>
          rw [hanswer] at hok
          cases hok
      | ok added =>
          exact (ih hbefore hfirst).perform (List.forall_mem_singleton.mp ha) hanswer

/-- Rearranged preparations, with whatever parameters, values and constraints in between, are sealed
with the same outcome, and then have the same families at the same places and, if no parameter
bounds a family, the same columns. -/
theorem layout_of_rearranged (name name' : Option String) {history history' : List (Action κ)}
    (hpreparatory : ∀ a ∈ history, a.Preparatory) (hpreparatory' : ∀ a ∈ history', a.Preparatory)
    (hdone : (Model.empty name).CarriedOut history)
    (hdone' : (Model.empty name').CarriedOut history') (hsame : Rearranged history history')
    (hbounds : ∀ declaration ∈ history.filterMap Action.declaration?,
      ∀ ref, ¬declaration.2.2.Reads ref) :
    let after := ((Model.empty name).run history).perform .sealUp
    let after' := ((Model.empty name').run history').perform .sealUp
    after'.1 = after.1
      ∧ after'.2.families = after.2.families
      ∧ after'.2.columnCount = after.2.columnCount
      ∧ ∀ read read' : Reader κ, after'.2.columns read' = after.2.columns read := by
  intro after after'
  have hprepared := prepared_run name hpreparatory hdone
  have hview := hprepared.sameView (prepared_run name' hpreparatory' hdone') hsame
  obtain ⟨houtcome, hsealed⟩ := hview.sealUp
  refine ⟨?_, hsealed.families, hsealed.columnCount_eq, fun read read' => ?_⟩
  · exact congrArg (Except.map fun _ => []) houtcome
  apply hsealed.columns_eq
  intro f hf ref href
  exact (hprepared.not_reads hbounds f hf ref href).elim

/-- Data first, and one limit set twice. -/
def dataFirstHistory : List (Action Rat) :=
  [.setLimit "T" 9, .addLabels ⟨"A", .labelled⟩ ["a", "b"], .setLimit "T" 2,
    .declareFamily (some "y") [⟨"A", .labelled⟩, ⟨"R", .range 0 (.limit "T")⟩]
      (.atLeast (.const 1)),
    .declareFamily none [⟨"A", .labelled⟩] .binary]

/-- The same families before their data, with a parameter loaded in between. -/
def familiesFirstHistory : List (Action Rat) :=
  [.declareFamily (some "y") [⟨"A", .labelled⟩, ⟨"R", .range 0 (.limit "T")⟩]
      (.atLeast (.const 1)),
    .addLabels ⟨"A", .labelled⟩ ["a"],
    .declareParameter (some "p") [⟨"A", .labelled⟩] .free 4,
    .storeLabelled 0 ["a"] 3,
    .declareFamily none [⟨"A", .labelled⟩] .binary,
    .addLabels ⟨"A", .labelled⟩ ["b"],
    .setLimit "T" 2]

theorem rearranged_familiesFirst : Rearranged dataFirstHistory familiesFirstHistory := by
  refine ⟨rfl, fun d _ => ?_, fun marker => ?_⟩
  · by_cases hd : (⟨"A", .labelled⟩ : Dimension) = d
    · subst hd
      decide
    · simp [dataFirstHistory, familiesFirstHistory, Action.labelsFor, hd]
  · by_cases hmarker : ("T" : Marker) = marker
    · subst hmarker
      decide
    · have hfirst : dataFirstHistory.filterMap (Action.limitFor? marker) = [] := by
        simp [dataFirstHistory, Action.limitFor?, hmarker]
      have hlater : familiesFirstHistory.filterMap (Action.limitFor? marker) = [] := by
        simp [familiesFirstHistory, Action.limitFor?, hmarker]
      rw [hfirst, hlater]

theorem layout_of_familiesFirst :
    let after := ((Model.empty none).run dataFirstHistory).perform .sealUp
    let after' := ((Model.empty (some "m")).run familiesFirstHistory).perform .sealUp
    Rearranged dataFirstHistory familiesFirstHistory
      ∧ after.1 = .ok []
      ∧ after.2.columnCount = 8
      ∧ after'.1 = after.1
      ∧ after'.2.families = after.2.families
      ∧ after'.2.columnCount = after.2.columnCount
      ∧ ∀ read read' : Reader Rat, after'.2.columns read' = after.2.columns read := by
  have hpreparatory : ∀ a ∈ dataFirstHistory, a.Preparatory := by
    simp [dataFirstHistory, Action.Preparatory]
  have hpreparatory' : ∀ a ∈ familiesFirstHistory, a.Preparatory := by
    simp [familiesFirstHistory, Action.Preparatory]
  have hbounds : ∀ declaration ∈ dataFirstHistory.filterMap Action.declaration?,
      ∀ ref, ¬declaration.2.2.Reads ref := by
    intro declaration hmem ref href
    rcases List.mem_cons.mp hmem with rfl | hmem
    · cases href with
      | lower hside hheld =>
          cases hside
          cases hheld
      | upper hside hheld => cases hside
    · obtain rfl := List.mem_singleton.mp hmem
      cases href with
      | lower hside hheld =>
          cases hside
          cases hheld
      | upper hside hheld =>
          cases hside
          cases hheld
  exact ⟨rearranged_familiesFirst, by decide, by decide,
    layout_of_rearranged none (some "m") hpreparatory hpreparatory' (by decide) (by decide)
      rearranged_familiesFirst hbounds⟩

end Model

end LinearProgram
