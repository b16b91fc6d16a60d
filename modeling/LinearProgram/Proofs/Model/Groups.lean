import LinearProgram.Model.Action
import LinearProgram.Proofs.Expr.Affine
import LinearProgram.Proofs.Space.RowMajor

/-!
Groups of constraints. An element in range has labels, so making its row fails just if its
constraint does. Main statement: either a request for a group fails as the first such failure does
and leaves the model as it was, or it adds one row for every element of the space behind the rows
that are there, in row-major order.
-/

namespace LinearProgram

variable {κ : Type}

namespace Model

variable {m : Model κ} {name : Option String} {space : Space}
  {body : List Nat → Outcome (Constraint κ)} {elements : List (List Nat)} {base : String}
  {coords : List Nat} {e : Failure}

/-- The row of a group for an element: the constraint that the body yields for it, under the name
of the group with the labels of the element, if there are dimensions. -/
structure GroupRow (m : Model κ) (base : String) (space : Space)
    (body : List Nat → Outcome (Constraint κ)) (coords : List Nat) (r : NamedConstraint κ) :
    Prop where
  constraint : body coords = .ok r.constraint
  name : ∃ labels, space.labels m.catalog coords = .ok labels
    ∧ r.name = if space = [] then base else base ++ ("[" ++ ",".intercalate labels ++ "]")

/-- The request for one row of a group. -/
def groupRow (m : Model κ) (base : String) (space : Space)
    (body : List Nat → Outcome (Constraint κ)) (coords : List Nat) : Outcome (NamedConstraint κ) :=
  do
    let c ← body coords
    let labels ← space.labels m.catalog coords
    return ⟨Naming.indexed base labels, c⟩

theorem constraintsOver_eq (helements : space.elements m.catalog = .ok elements) :
    m.constraintsOver name space body
      = elements.mapM (m.groupRow (name.getD m.nextName) space body) := by
  rw [constraintsOver, helements, Outcome.ok_bind]
  rfl

theorem exists_groupRow (hc : m.catalog.InWords) (hs : ∀ d ∈ space, d.InWords)
    (hrange : space.InRange m.catalog coords) {k : Constraint κ} (hk : body coords = .ok k) :
    ∃ r, m.groupRow base space body coords = .ok r := by
  obtain ⟨labels, hlabels⟩ := Space.exists_labels_of_inRange hc hs hrange
  exact ⟨⟨Naming.indexed base labels, k⟩, by rw [groupRow, hk, hlabels]; rfl⟩

theorem groupRow_eq_ok {r : NamedConstraint κ} (hrange : space.InRange m.catalog coords)
    (h : m.groupRow base space body coords = .ok r) : m.GroupRow base space body coords r := by
  obtain ⟨k, hk, hrest⟩ := Outcome.bind_eq_ok_iff.mp h
  obtain ⟨labels, hlabels, heq⟩ := Outcome.bind_eq_ok_iff.mp hrest
  cases heq
  have hempty : labels = [] ↔ space = [] := by
    rw [← List.length_eq_zero_iff, Space.length_labels hrange hlabels, List.length_eq_zero_iff]
  refine ⟨hk, labels, hlabels, ?_⟩
  simp only [Naming.indexed_eq, hempty]

/-- An element in range has labels, so that its row fails only if its constraint does. -/
theorem failsFirst_groupRow (hc : m.catalog.InWords) (hs : ∀ d ∈ space, d.InWords)
    (hrange : ∀ coords ∈ elements, space.InRange m.catalog coords)
    (h : Outcome.FailsFirst body elements coords e) :
    Outcome.FailsFirst (m.groupRow base space body) elements coords e := by
  obtain ⟨before, after, rfl, hbefore, hfail⟩ := h
  refine ⟨before, after, rfl, fun other hother => ?_, by rw [groupRow, hfail]; rfl⟩
  obtain ⟨k, hk⟩ := hbefore other hother
  exact exists_groupRow hc hs (hrange other (List.mem_append_left _ hother)) hk

theorem perform_group_of_error (h : m.constraintsOver name space body = .error e) :
    m.perform (.constrainEach name space body) = (.error e, m) := by
  rw [perform, constrainEach, h]
  rfl

theorem perform_group_of_unknown {d : Dimension}
    (h : Outcome.FailsFirst m.catalog.size space d e) :
    m.perform (.constrainEach name space body) = (.error e, m) := by
  refine perform_group_of_error ?_
  rw [constraintsOver, Space.elements_of_unknown h, Outcome.error_bind]

theorem perform_group_of_failing (hc : m.catalog.InWords) (hs : ∀ d ∈ space, d.InWords)
    (helements : space.elements m.catalog = .ok elements)
    (hrange : ∀ coords ∈ elements, space.InRange m.catalog coords)
    (h : Outcome.FailsFirst body elements coords e) :
    m.perform (.constrainEach name space body) = (.error e, m) := by
  refine perform_group_of_error ?_
  rw [constraintsOver_eq helements, (failsFirst_groupRow hc hs hrange h).mapM]

/-- A group whose constraints can all be had is appended as a whole. -/
theorem exists_group (hc : m.catalog.InWords) (hs : ∀ d ∈ space, d.InWords)
    (helements : space.elements m.catalog = .ok elements)
    (hrange : ∀ coords ∈ elements, space.InRange m.catalog coords)
    (hall : ∀ coords ∈ elements, ∃ k, body coords = .ok k) :
    ∃ rows, m.perform (.constrainEach name space body)
        = (.ok [], { m with constraints := m.constraints ++ rows })
      ∧ List.Forall₂ (m.GroupRow (name.getD m.nextName) space body) elements rows := by
  obtain ⟨rows, hrows⟩ : ∃ rows, List.Forall₂ (fun coords r =>
      m.groupRow (name.getD m.nextName) space body coords = .ok r) elements rows := by
    refine Outcome.exists_forall₂_iff.mpr fun coords hcoords => ?_
    obtain ⟨k, hk⟩ := hall coords hcoords
    exact exists_groupRow hc hs (hrange coords hcoords) hk
  refine ⟨rows, ?_, ?_⟩
  · have hgroup : m.constraintsOver name space body = .ok rows := by
      rw [constraintsOver_eq helements, Outcome.mapM_eq_ok_iff]
      exact hrows
    rw [perform, constrainEach, hgroup]
    rfl
  · have hboth := (List.forall₂_and_left _ _).mpr ⟨hrange, hrows⟩
    exact hboth.imp fun coords r ⟨hcoords, hr⟩ => groupRow_eq_ok hcoords hr

/-- A request for a group of constraints, one for every element of a space. If the size of some
dimension is unknown, it fails as the first such dimension does; if the constraint of some element
in range cannot be had, it fails as the first such element does, and either way the model is as it
was. Otherwise it adds the rows of all elements, each once and in row-major order, behind the
constraints that are there, and changes nothing else. The integers of a model are signed words. -/
theorem constrainEach_all_or_none (m : Model κ) (name : Option String) (space : Space)
    (body : List Nat → Outcome (Constraint κ)) (hc : m.catalog.InWords)
    (hs : ∀ d ∈ space, d.InWords) :
    ((∃ d ∈ space, ∃ e, m.catalog.size d = .error e) →
      ∃ d e, Outcome.FailsFirst m.catalog.size space d e
        ∧ m.perform (.constrainEach name space body) = (.error e, m))
    ∧ ((∀ d ∈ space, ∃ n, m.catalog.size d = .ok n) →
      ((∃ coords, space.InRange m.catalog coords ∧ ∃ e, body coords = .error e) →
        ∃ coords e, space.FirstFailure m.catalog body coords e
          ∧ m.perform (.constrainEach name space body) = (.error e, m))
      ∧ ((∀ coords, space.InRange m.catalog coords → ∃ k, body coords = .ok k) →
        ∃ elements rows, space.Enumerates m.catalog elements
          ∧ m.perform (.constrainEach name space body)
            = (.ok [], { m with constraints := m.constraints ++ rows })
          ∧ List.Forall₂
            (m.GroupRow (name.getD ("c" ++ toString m.constraints.length)) space body)
            elements rows)) := by
  refine ⟨fun ⟨d, hd, e, he⟩ => ?_, fun hsizes => ?_⟩
  · obtain ⟨d', e', hfirst⟩ := Outcome.exists_failsFirst hd he
    exact ⟨d', e', hfirst, perform_group_of_unknown hfirst⟩
  obtain ⟨elements, helements, henumerates⟩ := Space.exists_enumeration hsizes
  have hrange : ∀ coords ∈ elements, space.InRange m.catalog coords := fun coords =>
    (henumerates.mem_iff coords).mp
  refine ⟨fun ⟨coords, hcoords, e, he⟩ => ?_, fun hall => ?_⟩
  · obtain ⟨coords', e', hfirst⟩ :=
      Outcome.exists_failsFirst ((henumerates.mem_iff coords).mpr hcoords) he
    exact ⟨coords', e', henumerates.firstFailure hfirst,
      perform_group_of_failing hc hs helements hrange hfirst⟩
  · obtain ⟨rows, hperform, hrows⟩ := exists_group hc hs helements hrange fun coords hcoords =>
      hall coords (hrange coords hcoords)
    exact ⟨elements, rows, henumerates, hperform, hrows⟩

/-- A model with two labels and a row, and a range whose last element is not given. -/
def pairedModel : Model Rat :=
  { (empty none : Model Rat) with
    catalog := ⟨[(⟨"side", .labelled⟩, ["left", "right"])], [], false⟩
    constraints := [⟨"first", ⟨.const 1, none, some 2⟩⟩] }

/-- One constraint for every element but those of a side. -/
def exceptSide (side : Nat) (coords : List Nat) : Outcome (Constraint Rat) :=
  if coords.headD 0 = side then .refuse .divisionByZero else .ok ⟨.const 1, none, some 2⟩

/-- Elements of two sides and two numbers: all have a constraint, then those of the right side do
not; and elements that cannot be listed. -/
theorem constrainEach_of_pairs :
    let space : Space := [⟨"side", .labelled⟩, ⟨"k", .range 1 (.fixed 2)⟩]
    (∃ elements rows, space.Enumerates pairedModel.catalog elements
        ∧ pairedModel.perform (.constrainEach none space (exceptSide 2))
          = (.ok [], { pairedModel with constraints := pairedModel.constraints ++ rows })
        ∧ List.Forall₂ (pairedModel.GroupRow "c1" space (exceptSide 2)) elements rows)
      ∧ pairedModel.perform (.constrainEach none space (exceptSide 1))
        = (.refuse .divisionByZero, pairedModel)
      ∧ ∃ e, pairedModel.perform
          (.constrainEach none [⟨"n", .range 0 (.limit "last")⟩] (exceptSide 2))
        = (.error e, pairedModel) := by
  intro space
  have hsizes : ∀ d ∈ space, ∃ n, pairedModel.catalog.size d = .ok n :=
    List.forall_mem_cons.mpr ⟨⟨2, rfl⟩, List.forall_mem_singleton.mpr ⟨2, rfl⟩⟩
  obtain ⟨-, hall⟩ := constrainEach_all_or_none pairedModel none space (exceptSide 2) (by decide)
    (by decide)
  obtain ⟨-, hnone⟩ := constrainEach_all_or_none pairedModel none space (exceptSide 1) (by decide)
    (by decide)
  obtain ⟨hunknown, -⟩ := constrainEach_all_or_none pairedModel none
    [⟨"n", .range 0 (.limit "last")⟩] (exceptSide 2) (by decide) (by decide)
  refine ⟨(hall hsizes).2 fun coords hrange => ?_, ?_, ?_⟩
  · have hside : coords.headD 0 < 2 := by
      change Space.InRange _ (_ :: _) coords at hrange
      rcases hrange with _ | ⟨⟨n, hn, hlt⟩, -⟩
      cases hn
      exact hlt
    exact ⟨_, if_neg hside.ne⟩
  · obtain ⟨coords, e, hfirst, hperform⟩ := (hnone hsizes).1
      ⟨[1, 0], .cons ⟨2, rfl, by decide⟩ (.cons ⟨2, rfl, by decide⟩ .nil), _, rfl⟩
    have hfails := hfirst.fails
    unfold exceptSide at hfails
    split at hfails
    · cases hfails
      exact hperform
    · cases hfails
  · obtain ⟨d, e, -, hperform⟩ := hunknown ⟨_, List.mem_cons_self, _, rfl⟩
    exact ⟨e, hperform⟩

end Model

end LinearProgram
