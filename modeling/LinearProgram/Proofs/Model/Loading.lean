import LinearProgram.Proofs.Expr.Algebra
import LinearProgram.Proofs.Model.Elements
import LinearProgram.Proofs.Model.Tables
import LinearProgram.Proofs.Scalar.Packing
import LinearProgram.Proofs.Session

/-!
Data that is loaded by label, in the flat layout. A parameter and a family over the same dimensions
meet at the labels: what was stored under a label tuple bounds the variable in the column of that
tuple, and is its coefficient when the two are multiplied and summed.
-/

namespace LinearProgram

variable {κ : Type} {c : Catalog} {f : Family κ} {coords : List Nat} {start n j : Nat}

/-- A label tuple of a family, the element that it stands for, and the column of its variable. -/
structure Family.Labelled (c : Catalog) (f : Family κ) (labels : List String)
    (coords : List Nat) (j : Nat) : Prop where
  length : labels.length = f.space.length
  resolve : f.space.resolve c labels = .ok coords
  column : ∃ x : Variable, f.exprAtLabels c labels = .ok (.var x) ∧ x.column = .ok j

theorem Family.Labelled.hasColumn {labels : List String} (h : f.Labelled c labels coords j) :
    f.HasColumn c coords j := by
  obtain ⟨x, hx, hcolumn⟩ := h.column
  rw [exprAtLabels_of_resolve h.resolve] at hx
  exact ⟨x, hx, hcolumn⟩

/-- Every element in a column has labels. -/
theorem Family.exists_labelled (hdistinct : c.Distinct) (hc : c.InWords)
    (hs : ∀ d ∈ f.space, d.InWords) (hf : f.Placed c start n) (h : f.HasColumn c coords j) :
    ∃ labels, f.Labelled c labels coords j := by
  obtain ⟨x, hx, hcolumn⟩ := h
  have hrange : f.space.InRange c coords := hf.exists_exprAt_iff.mp ⟨_, hx⟩
  obtain ⟨labels, hlabels, hresolve⟩ := Space.exists_labels hdistinct hc hs hrange
  refine ⟨labels, Space.length_labels hrange hlabels, hresolve, x, ?_, hcolumn⟩
  rw [exprAtLabels_of_resolve hresolve, hx]

/-- A bound that is given by a parameter is the parameter's value at the element. -/
theorem Bound.mapM_eval_of_parameter {read : Reader κ} {side : Option (Bound κ)} {b : Bound κ}
    {ref : ParameterRef} {v : κ} (hside : side = some b) (hrule : b.rule = .parameter ref)
    (hread : read ref coords = .ok v) : side.mapM (Bound.eval read coords) = .ok (some v) := by
  have heval : b.eval read coords = .ok v := by
    rw [Bound.eval, hrule, BoundRule.eval_parameter, hread]
    rfl
  rw [hside, Option.mapM_some, heval]
  rfl

namespace Model

variable [Scalar κ] {m : Model κ}

/-- The products of a value for each element with the element's variable, summed. -/
theorem sumOver_products {value : List Nat → Outcome κ} {weight : List Nat → κ}
    (hf : f.Placed m.catalog start n) (hfit : start + n ≤ Word.limit)
    (hvalue : ∀ coords, f.space.InRange m.catalog coords → value coords = .ok (weight coords)) :
    ∃ s, m.sumOver f.space
        (fun coords => do (Expr.const (← value coords)).mul (← f.exprAt m.catalog coords))
        = .ok (.sum s)
      ∧ (Expr.sum s).Filed ∧ s.constant = 0
      ∧ ∀ j w, (j, w) ∈ (Expr.sum s).raw.entries
        ↔ ∃ coords, f.HasColumn m.catalog coords j ∧ 0 + weight coords = w := by
  obtain ⟨elements, helements, hlists⟩ := Space.exists_elements hf.size_eq
  obtain ⟨offset, hoffset⟩ := Space.exists_offsets hf.size_eq
  simp only [← hlists.mem_iff] at hvalue hoffset
  have hcolumn : ∀ coords ∈ elements,
      Variable.column ⟨start, offset coords⟩ = .ok (start + offset coords) := by
    intro coords h
    have hlt := (hoffset coords h).2
    exact Variable.column_eq_ok_iff.mpr ⟨by dsimp only; omega, rfl⟩
  have hbody : ∀ coords ∈ elements,
      (do (Expr.const (← value coords)).mul (← f.exprAt m.catalog coords) : Outcome (Expr κ))
        = .ok (.term ⟨⟨start, offset coords⟩, weight coords⟩) := by
    intro coords h
    rw [hvalue coords h, Outcome.ok_bind, hf.exprAt_eq_ok_iff.mpr ⟨_, (hoffset coords h).1, rfl⟩]
    rfl
  have hascending : elements.Pairwise (start + offset · < start + offset ·) := by
    refine hlists.ascending.imp_of_mem ?_
    intro left right hleft hright h
    exact Nat.add_lt_add_left (h _ _ (hoffset left hleft).1 (hoffset right hright).1) start
  have hsum := LinearSum.foldlM_add_ascending (s := LinearSum.zero) hbody hcolumn hascending
    (fun p hp => absurd hp List.not_mem_nil)
  refine ⟨⟨elements.map fun coords =>
    (start + offset coords, ⟨⟨start, offset coords⟩, 0 + weight coords⟩), 0⟩, ?_, ⟨?_, ?_⟩, rfl,
    fun j w => ?_⟩
  · rw [sumOver, helements, Outcome.ok_bind, hsum]
    rfl
  · exact List.forall_mem_map.mpr hcolumn
  · exact List.pairwise_map.mpr hascending
  · simp only [Expr.raw, LinearSum.entries, List.map_map, List.mem_map, Function.comp,
      Prod.mk.injEq, hf.hasColumn_iff]
    constructor
    · rintro ⟨coords, h, rfl, rfl⟩
      have hlt := (hoffset coords h).2
      exact ⟨coords, ⟨_, (hoffset coords h).1, by omega, rfl⟩, rfl⟩
    · rintro ⟨coords, ⟨k, hk, -, rfl⟩, rfl⟩
      have h := (hlists.mem_iff coords).mpr (Space.inRange_of_offset hk)
      cases hk.symm.trans (hoffset coords h).1
      exact ⟨coords, h, rfl, rfl⟩

omit [Scalar κ] in
theorem family_eq_ok {i : Nat} (h : m.family i = .ok f) : m.families[i]? = some f := by
  unfold family at h
  split at h
  · rename_i g hg
    rw [hg, Except.ok.inj h]
  · cases h

/-- Data reaches the column of its labels. Let a parameter and a family of a sealed model have the
same dimensions, and let all stores into the parameter be carried out on the members that these
dimensions have in the end. Where the parameter bounds the family, the bound in the column of a
label tuple is the value loaded for that tuple. The sum of the products of parameter and family has
just these values as entries, in the order of the columns, without those that are zero. -/
theorem loaded_by_label (name : Option String) {history : List (Action Float)}
    (hwords : ∀ a ∈ history, a.InWords) {m : Model Float}
    (hm : (Model.empty name).run history = m) (hsealed : m.isSealed = true) {slot i k : Nat}
    {p : Parameter Float} {f : Family Float} (hp : m.parameter slot = .ok p)
    (hf : m.family i = .ok f) (hspace : p.space = f.space)
    (hstores : ∀ step ∈ (Model.empty name).trace history, step.2.storesInto slot = true →
      (step.1.perform step.2).1 = .ok [] ∧ p.space.Agree step.1.catalog m.catalog)
    {s : Session Float} (hs : s.model k = .ok m) :
    let weight := loaded slot p ((Model.empty name).trace history)
    (∀ labels coords, labels.length = f.space.length →
      f.space.resolve m.catalog labels = .ok coords →
      ∃ j, f.Labelled m.catalog labels coords j
        ∧ (∀ b, f.domain.lower = some b → b.rule = .parameter ⟨k, slot⟩ →
          f.lowerAt s.read m.catalog j = .ok (some (weight coords)))
        ∧ ∀ b, f.domain.upper = some b → b.rule = .parameter ⟨k, slot⟩ →
          f.upperAt s.read m.catalog j = .ok (some (weight coords)))
      ∧ ∃ e form,
        m.sumOver f.space
          (fun coords => do
            (Expr.const (← s.read ⟨k, slot⟩ coords)).mul (← f.exprAt m.catalog coords))
          = .ok e
        ∧ e.linearForm = .ok form ∧ form.constant = 0 ∧ form.entries.Pairwise (·.1 < ·.1)
        ∧ ∀ j v, (j, v) ∈ form.entries
          ↔ (∃ labels coords, f.Labelled m.catalog labels coords j ∧ weight coords = v)
            ∧ (v == 0) = false := by
  intro weight
  subst hm
  obtain ⟨sizes, hlaid⟩ := laidOut_of_sealed hsealed
  obtain ⟨start, n, hplaced, hfit⟩ := hlaid.exists_placed (family_eq_ok hf)
  obtain ⟨shape, hshape, -⟩ := Space.size_eq_ok hplaced.size_eq
  have hinwords := (inWords_empty name).run hwords
  have hspaces := hinwords.spaces f (List.mem_of_getElem? (family_eq_ok hf))
  have hloaded := (tracked_run rfl hstores).loaded p (parameter_eq_ok_iff.mp hp) rfl
  have hread (coords : List Nat)
      (hrange : f.space.InRange ((Model.empty name).run history).catalog coords) :
      s.read ⟨k, slot⟩ coords = .ok (weight coords) := by
    obtain ⟨offset, -, hoffset, -⟩ := Space.exists_offset hplaced.size_eq hrange
    rw [Session.read_of_model hs hp]
    exact hloaded.read (hspace ▸ hoffset)
  refine ⟨?_, ?_⟩
  · intro labels coords hlength hresolve
    have hrange := Space.inRange_of_resolve hshape hlength hresolve
    obtain ⟨j, hcolumn⟩ := hplaced.exists_hasColumn hfit.le hrange
    have hcoords := hplaced.coordsAt hcolumn
    obtain ⟨x, hx, hj⟩ := hcolumn
    refine ⟨j, ⟨hlength, hresolve, x, ?_, hj⟩, ?_, ?_⟩
    · rw [Family.exprAtLabels_of_resolve hresolve, hx]
    · intro b hb hrule
      rw [Family.lowerAt, hcoords, Outcome.ok_bind]
      exact Bound.mapM_eval_of_parameter hb hrule (hread coords hrange)
    · intro b hb hrule
      rw [Family.upperAt, hcoords, Outcome.ok_bind]
      exact Bound.mapM_eval_of_parameter hb hrule (hread coords hrange)
  · obtain ⟨sum, hsum, hfiled, hconstant, hentries⟩ := sumOver_products hplaced hfit.le hread
    refine ⟨_, _, hsum, hfiled.linearForm, hconstant, hfiled.ascending.filter _, fun j v => ?_⟩
    simp only [Expr.live, List.mem_filter, hentries, Bool.not_eq_true']
    refine and_congr_left fun hv => ?_
    constructor
    · rintro ⟨coords, hcolumn, rfl⟩
      obtain ⟨labels, hlabelled⟩ :=
        Family.exists_labelled (distinct_run name history) hinwords.limits hspaces hplaced hcolumn
      rw [Packing.zero_add_beq_zero] at hv
      exact ⟨labels, coords, hlabelled, (Packing.zero_add_of_ne hv).symm⟩
    · rintro ⟨labels, coords, hlabelled, rfl⟩
      exact ⟨coords, hlabelled.hasColumn, Packing.zero_add_of_ne hv⟩

/-- A parameter over a set and a range, stored into by label and by position, with another default
in between, bounds a family over the same. -/
def boundedHistory : List (Action Float) :=
  [.addLabels ⟨"A", .labelled⟩ ["a", "b"],
    .setLimit "T" 4,
    .declareParameter (some "p") [⟨"A", .labelled⟩, ⟨"R", .range 3 (.limit "T")⟩] .free 5,
    .storeLabelled 0 ["b", "4"] 2.5,
    .setDefault 0 1,
    .store 0 [0, 1] 0,
    .declareFamily (some "x") [⟨"A", .labelled⟩, ⟨"R", .range 3 (.limit "T")⟩]
      (.atLeast (.parameter ⟨0, 0⟩)),
    .sealUp]

def boundedModel : Model Float := (Model.empty none).run boundedHistory

/-- What the history makes of the parameter. -/
def boundedTable : Parameter Float :=
  ⟨"p", [⟨"A", .labelled⟩, ⟨"R", .range 3 (.limit "T")⟩], .free, 1, [5, 0, 5, 2.5]⟩

/-- What the history makes of the family. -/
def boundedFamily : Family Float :=
  ⟨"x", [⟨"A", .labelled⟩, ⟨"R", .range 3 (.limit "T")⟩], .atLeast (.parameter ⟨0, 0⟩), some 0⟩

theorem stores_of_boundedHistory {space : Space} :
    ∀ step ∈ (Model.empty none).trace boundedHistory, step.2.storesInto 0 = true →
      (step.1.perform step.2).1 = .ok [] ∧ space.Agree step.1.catalog boundedModel.catalog := by
  have hother {m : Model Float} {a : Action Float} (ha : a.storesInto 0 = false) :
      a.storesInto 0 = true →
        (m.perform a).1 = .ok [] ∧ space.Agree m.catalog boundedModel.catalog := by
    rw [ha]
    intro h
    cases h
  simp only [boundedHistory, trace, List.forall_mem_cons]
  refine ⟨hother rfl, hother rfl, hother rfl, fun _ => ⟨rfl, fun d _ => ?_⟩, hother rfl,
    fun _ => ⟨rfl, fun d _ => ?_⟩, hother rfl, hother rfl, List.forall_mem_nil _⟩
  · exact Catalog.agree_freeze _ d
  · exact Catalog.agree_freeze _ d

theorem loaded_of_boundedHistory :
    (∀ a ∈ boundedHistory, a.InWords) ∧ boundedModel.isSealed = true
      ∧ boundedModel.parameter 0 = .ok boundedTable ∧ boundedModel.family 0 = .ok boundedFamily
      ∧ boundedTable.space = boundedFamily.space
      ∧ (∀ step ∈ (Model.empty none).trace boundedHistory, step.2.storesInto 0 = true →
        (step.1.perform step.2).1 = .ok []
          ∧ boundedTable.space.Agree step.1.catalog boundedModel.catalog)
      ∧ (Session.mk [boundedModel] []).model 0 = .ok boundedModel
      ∧ ∃ j, boundedFamily.Labelled boundedModel.catalog ["b", "4"] [1, 1] j
        ∧ boundedFamily.lowerAt (Session.mk [boundedModel] []).read boundedModel.catalog j
          = .ok (some 2.5) := by
  have hwords : ∀ a ∈ boundedHistory, a.InWords := by
    simp only [boundedHistory, List.forall_mem_cons, List.not_mem_nil, Action.InWords,
      false_implies, implies_true, and_true, true_and]
    decide
  obtain ⟨hbounds, -⟩ := loaded_by_label none hwords (m := boundedModel) rfl rfl
    (i := 0) (p := boundedTable) (f := boundedFamily) rfl rfl rfl stores_of_boundedHistory
    (s := ⟨[boundedModel], []⟩) (k := 0) rfl
  obtain ⟨j, hlabelled, hlower, -⟩ := hbounds ["b", "4"] [1, 1] rfl (by decide)
  exact ⟨hwords, rfl, rfl, rfl, rfl, stores_of_boundedHistory, rfl, j, hlabelled,
    hlower _ rfl rfl⟩

end Model

end LinearProgram
