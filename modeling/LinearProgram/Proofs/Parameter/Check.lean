import LinearProgram.Proofs.Model.Reads
import LinearProgram.Proofs.Scalar.Order
import LinearProgram.Proofs.Space.RowMajor

/-!
Checks of a parameter against its declared domain. An element is looked at from below, from above
and for integrality, in this order, and the first thing that is wrong with the first element that
something is wrong with is what the check reports.
-/

namespace LinearProgram

/-! ### What a domain admits -/

/-- One number lies below another, strictly if need be. -/
def Clears (strict : Bool) (low high : Float) : Prop := if strict then low < high else low ≤ high

namespace Domain

variable {d : Domain Float} {read : Reader Float} {coords : List Nat} {v : Float}

/-- The lower bound, if there is one, is below the value. -/
def AboveLower (d : Domain Float) (read : Reader Float) (coords : List Nat) (v : Float) : Prop :=
  ∀ b, d.lower = some b → ∃ l, b.eval read coords = .ok l ∧ Clears b.strict l v

/-- The upper bound, if there is one, is above the value. -/
def BelowUpper (d : Domain Float) (read : Reader Float) (coords : List Nat) (v : Float) : Prop :=
  ∀ b, d.upper = some b → ∃ u, b.eval read coords = .ok u ∧ Clears b.strict v u

/-- A value is within the bounds for an element, and finite and whole if it has to be. -/
structure Admits (d : Domain Float) (read : Reader Float) (coords : List Nat) (v : Float) :
    Prop where
  lower : d.AboveLower read coords v
  upper : d.BelowUpper read coords v
  whole : d.integer = true → (Double.ofBits v.toBits).Whole

/-- The bounds for an element can be worked out, and are numbers. -/
structure BoundsKnown (d : Domain Float) (read : Reader Float) (coords : List Nat) : Prop where
  lower : ∀ b, d.lower = some b → ∃ l, b.eval read coords = .ok l ∧ Scalar.isNumber l = true
  upper : ∀ b, d.upper = some b → ∃ u, b.eval read coords = .ok u ∧ Scalar.isNumber u = true

theorem exists_of_not_aboveLower (h : d.BoundsKnown read coords)
    (hv : ¬d.AboveLower read coords v) :
    ∃ b l, d.lower = some b ∧ b.eval read coords = .ok l ∧ ¬Clears b.strict l v := by
  unfold AboveLower at hv
  push Not at hv
  obtain ⟨b, hb, hbeyond⟩ := hv
  obtain ⟨l, hl, -⟩ := h.lower b hb
  exact ⟨b, l, hb, hl, hbeyond l hl⟩

theorem exists_of_not_belowUpper (h : d.BoundsKnown read coords)
    (hv : ¬d.BelowUpper read coords v) :
    ∃ b u, d.upper = some b ∧ b.eval read coords = .ok u ∧ ¬Clears b.strict v u := by
  unfold BelowUpper at hv
  push Not at hv
  obtain ⟨b, hb, hbeyond⟩ := hv
  obtain ⟨u, hu, -⟩ := h.upper b hb
  exact ⟨b, u, hb, hu, hbeyond u hu⟩

end Domain

namespace Parameter

variable {p : Parameter Float} {read : Reader Float} {c : Catalog} {coords : List Nat} {k : Nat}
  {v : Float} {labels : List String} {elements : List (List Nat)} {f : Fault} {e : Failure}

/-- What is reported of an element with a value that the domain does not admit. The upper bound
counts only if there is nothing wrong with the lower one, and integrality only if there is nothing
wrong with either. -/
inductive Violation (read : Reader Float) (c : Catalog) (p : Parameter Float) (k : Nat)
    (coords : List Nat) (v : Float) : Fault → Prop
  | lower {b : Bound Float} {l : Float} {labels : List String} (hb : p.domain.lower = some b)
      (hl : b.eval read coords = .ok l) (hbeyond : ¬Clears b.strict l v)
      (hlabels : p.space.labels c coords = .ok labels) :
      Violation read c p k coords v (.outsideDomain (Naming.indexed p.name labels) (Scalar.text v)
        (if b.strict then ">" else ">=") (Scalar.text l))
  | upper {b : Bound Float} {u : Float} {labels : List String}
      (hlower : p.domain.AboveLower read coords v) (hb : p.domain.upper = some b)
      (hu : b.eval read coords = .ok u) (hbeyond : ¬Clears b.strict v u)
      (hlabels : p.space.labels c coords = .ok labels) :
      Violation read c p k coords v (.outsideDomain (Naming.indexed p.name labels) (Scalar.text v)
        (if b.strict then "<" else "<=") (Scalar.text u))
  | notWhole (hlower : p.domain.AboveLower read coords v)
      (hupper : p.domain.BelowUpper read coords v) (hinteger : p.domain.integer = true)
      (hwhole : ¬(Double.ofBits v.toBits).Whole) :
      Violation read c p k coords v (.notWhole k p.name (Scalar.text v))

theorem Violation.kind (h : p.Violation read c k coords v f) : f.kind = .domainViolation := by
  cases h <;> rfl

theorem Violation.not_admits (h : p.Violation read c k coords v f) :
    ¬p.domain.Admits read coords v := by
  intro hadmits
  cases h with
  | lower hb hl hbeyond =>
      obtain ⟨l', hl', hclears⟩ := hadmits.lower _ hb
      cases hl.symm.trans hl'
      exact hbeyond hclears
  | upper _ hb hu hbeyond =>
      obtain ⟨u', hu', hclears⟩ := hadmits.upper _ hb
      cases hu.symm.trans hu'
      exact hbeyond hclears
  | notWhole _ _ hinteger hwhole => exact hwhole (hadmits.whole hinteger)

theorem exists_violation (hbounds : p.domain.BoundsKnown read coords)
    (hlabels : p.space.labels c coords = .ok labels) (h : ¬p.domain.Admits read coords v)
    (k : Nat) : ∃ f, p.Violation read c k coords v f := by
  by_cases hlower : p.domain.AboveLower read coords v
  case neg =>
    obtain ⟨b, l, hb, hl, hbeyond⟩ := Domain.exists_of_not_aboveLower hbounds hlower
    exact ⟨_, .lower hb hl hbeyond hlabels⟩
  by_cases hupper : p.domain.BelowUpper read coords v
  case neg =>
    obtain ⟨b, u, hb, hu, hbeyond⟩ := Domain.exists_of_not_belowUpper hbounds hupper
    exact ⟨_, .upper hlower hb hu hbeyond hlabels⟩
  have hwhole : ¬(p.domain.integer = true → (Double.ofBits v.toBits).Whole) :=
    fun hwhole => h ⟨hlower, hupper, hwhole⟩
  rw [Classical.not_imp] at hwhole
  exact ⟨_, .notWhole hlower hupper hwhole.1 hwhole.2⟩

/-! ### One element -/

section Side

variable {strict : Bool} {low high b : Float} {strictSign closedSign : String}

theorem checkSide_of_clears (hlow : Scalar.isNumber low = true)
    (hhigh : Scalar.isNumber high = true) (h : Clears strict low high) :
    p.checkSide c coords v b strictSign closedSign (strict ∧ high ≤ low) (high < low) = .ok () := by
  cases strict with
  | true =>
      have hle : ¬high ≤ low := (Packing.not_le_iff hhigh hlow).mpr h
      have hlt : ¬high < low := (Packing.not_lt_iff hhigh hlow).mpr (Packing.le_of_lt h)
      simp [checkSide, hle, hlt]
  | false =>
      have hlt : ¬high < low := (Packing.not_lt_iff hhigh hlow).mpr h
      simp [checkSide, hlt]

theorem checkSide_of_not_clears (hlow : Scalar.isNumber low = true)
    (hhigh : Scalar.isNumber high = true) (hlabels : p.space.labels c coords = .ok labels)
    (h : ¬Clears strict low high) :
    p.checkSide c coords v b strictSign closedSign (strict ∧ high ≤ low) (high < low)
      = .refuse (.outsideDomain (Naming.indexed p.name labels) (Scalar.text v)
        (if strict then strictSign else closedSign) (Scalar.text b)) := by
  cases strict with
  | true =>
      have hle : high ≤ low := (Packing.not_lt_iff hlow hhigh).mp h
      simp [checkSide, hle, hlabels, Except.toOption]
  | false =>
      have hlt : high < low := (Packing.not_le_iff hlow hhigh).mp h
      simp [checkSide, hlt, hlabels, Except.toOption]

end Side

/-- The last of the three looks at an element. -/
def checkWhole (p : Parameter Float) (k : Nat) (v : Float) : Outcome Unit :=
  if p.domain.integer ∧ !Scalar.isWhole v then .refuse (.notWhole k p.name (Scalar.text v))
  else .ok ()

/-- The last two of the three looks at an element. -/
def checkFromAbove (read : Reader Float) (c : Catalog) (p : Parameter Float) (k : Nat)
    (coords : List Nat) (v : Float) : Outcome Unit :=
  match p.domain.upper with
  | some b => do
    let u ← b.eval read coords
    p.checkSide c coords v u "<" "<=" (b.strict ∧ u ≤ v) (u < v)
    p.checkWhole k v
  | none => p.checkWhole k v

theorem checkElement_of_lower {b : Bound Float} {l : Float} (hread : p.read c coords = .ok v)
    (hb : p.domain.lower = some b) (hl : b.eval read coords = .ok l) :
    p.checkElement read c k coords
      = p.checkSide c coords v l ">" ">=" (b.strict ∧ v ≤ l) (v < l) >>= fun _ =>
        p.checkFromAbove read c k coords v := by
  rw [checkElement, hread, Outcome.ok_bind, hb]
  dsimp only
  rw [hl, Outcome.ok_bind]
  unfold checkFromAbove
  cases p.domain.upper <;> rfl

theorem checkElement_of_no_lower (hread : p.read c coords = .ok v) (hb : p.domain.lower = none) :
    p.checkElement read c k coords = p.checkFromAbove read c k coords v := by
  rw [checkElement, hread, Outcome.ok_bind, hb]
  unfold checkFromAbove
  cases p.domain.upper <;> rfl

theorem checkElement_of_aboveLower (hread : p.read c coords = .ok v)
    (hv : Scalar.isNumber v = true) (hbounds : p.domain.BoundsKnown read coords)
    (h : p.domain.AboveLower read coords v) :
    p.checkElement read c k coords = p.checkFromAbove read c k coords v := by
  cases hb : p.domain.lower with
  | none => exact checkElement_of_no_lower hread hb
  | some b =>
      obtain ⟨l, hl, hclears⟩ := h b hb
      obtain ⟨l', hl', hnumber⟩ := hbounds.lower b hb
      cases hl.symm.trans hl'
      rw [checkElement_of_lower hread hb hl, checkSide_of_clears hnumber hv hclears,
        Outcome.ok_bind]

theorem checkFromAbove_of_belowUpper (hv : Scalar.isNumber v = true)
    (hbounds : p.domain.BoundsKnown read coords) (h : p.domain.BelowUpper read coords v) :
    p.checkFromAbove read c k coords v = p.checkWhole k v := by
  unfold checkFromAbove
  cases hb : p.domain.upper with
  | none => rfl
  | some b =>
      obtain ⟨u, hu, hclears⟩ := h b hb
      obtain ⟨u', hu', hnumber⟩ := hbounds.upper b hb
      cases hu.symm.trans hu'
      dsimp only
      rw [hu, Outcome.ok_bind, checkSide_of_clears hv hnumber hclears, Outcome.ok_bind]

theorem isWhole_iff_whole (v : Float) :
    Scalar.isWhole v = true ↔ (Double.ofBits v.toBits).Whole :=
  Double.isWhole_iff _

theorem checkElement_of_admits (hread : p.read c coords = .ok v) (hv : Scalar.isNumber v = true)
    (hbounds : p.domain.BoundsKnown read coords) (h : p.domain.Admits read coords v) :
    p.checkElement read c k coords = .ok () := by
  rw [checkElement_of_aboveLower hread hv hbounds h.lower,
    checkFromAbove_of_belowUpper hv hbounds h.upper, checkWhole, if_neg]
  rintro ⟨hinteger, hwhole⟩
  rw [(isWhole_iff_whole v).mpr (h.whole hinteger)] at hwhole
  cases hwhole

theorem checkElement_of_violation (hread : p.read c coords = .ok v)
    (hv : Scalar.isNumber v = true) (hbounds : p.domain.BoundsKnown read coords)
    (h : p.Violation read c k coords v f) : p.checkElement read c k coords = .refuse f := by
  cases h with
  | @lower b l _ hb hl hbeyond hlabels =>
      obtain ⟨l', hl', hnumber⟩ := hbounds.lower b hb
      cases hl.symm.trans hl'
      rw [checkElement_of_lower hread hb hl, checkSide_of_not_clears hnumber hv hlabels hbeyond]
      rfl
  | @upper b u _ hlower hb hu hbeyond hlabels =>
      obtain ⟨u', hu', hnumber⟩ := hbounds.upper b hb
      cases hu.symm.trans hu'
      rw [checkElement_of_aboveLower hread hv hbounds hlower, checkFromAbove, hb]
      dsimp only
      rw [hu, Outcome.ok_bind, checkSide_of_not_clears hv hnumber hlabels hbeyond]
      rfl
  | notWhole hlower hupper hinteger hwhole =>
      rw [checkElement_of_aboveLower hread hv hbounds hlower,
        checkFromAbove_of_belowUpper hv hbounds hupper, checkWhole, if_pos]
      rw [← isWhole_iff_whole, Bool.not_eq_true] at hwhole
      exact ⟨hinteger, by rw [hwhole]; rfl⟩

/-- What there is to know before a check: the value of an element and its bounds, all of them
numbers. -/
structure Checkable (read : Reader Float) (c : Catalog) (p : Parameter Float)
    (coords : List Nat) : Prop where
  value : ∃ v, p.read c coords = .ok v ∧ Scalar.isNumber v = true
  bounds : p.domain.BoundsKnown read coords
  labels : ∃ labels, p.space.labels c coords = .ok labels

theorem checkElement_eq_ok_iff (h : p.Checkable read c coords) :
    p.checkElement read c k coords = .ok ()
      ↔ ∃ v, p.read c coords = .ok v ∧ p.domain.Admits read coords v := by
  obtain ⟨v, hread, hv⟩ := h.value
  obtain ⟨labels, hlabels⟩ := h.labels
  constructor
  · intro hok
    refine ⟨v, hread, ?_⟩
    by_contra hadmits
    obtain ⟨f, hf⟩ := exists_violation h.bounds hlabels hadmits k
    rw [checkElement_of_violation hread hv h.bounds hf] at hok
    cases hok
  · rintro ⟨v', hread', hadmits⟩
    cases hread.symm.trans hread'
    exact checkElement_of_admits hread hv h.bounds hadmits

theorem exists_violation_of_error (h : p.Checkable read c coords)
    (he : p.checkElement read c k coords = .error e) :
    ∃ v f, p.read c coords = .ok v ∧ p.Violation read c k coords v f ∧ e = .fault f := by
  obtain ⟨v, hread, hv⟩ := h.value
  obtain ⟨labels, hlabels⟩ := h.labels
  by_cases hadmits : p.domain.Admits read coords v
  · rw [checkElement_of_admits hread hv h.bounds hadmits] at he
    cases he
  · obtain ⟨f, hf⟩ := exists_violation h.bounds hlabels hadmits k
    rw [checkElement_of_violation hread hv h.bounds hf] at he
    exact ⟨v, f, hread, hf, (Except.error.inj he).symm⟩

/-! ### All elements -/

theorem check_eq (helements : p.space.elements c = .ok elements) :
    p.check read c = elements.zipIdx.forM fun (coords, k) => p.checkElement read c k coords := by
  rw [check, helements, Outcome.ok_bind]

theorem check_eq_ok_iff (helements : p.space.elements c = .ok elements)
    (h : ∀ coords ∈ elements, p.Checkable read c coords) :
    p.check read c = .ok ()
      ↔ ∀ coords ∈ elements, ∃ v, p.read c coords = .ok v ∧ p.domain.Admits read coords v := by
  rw [check_eq helements, Outcome.forM_eq_ok_iff]
  constructor
  · intro hall coords hcoords
    obtain ⟨k, hk, rfl⟩ := List.mem_iff_getElem.mp hcoords
    have hmem : (elements[k], k) ∈ elements.zipIdx :=
      List.mk_mem_zipIdx_iff_getElem?.mpr (List.getElem?_eq_getElem hk)
    have hok : p.checkElement read c k elements[k] = .ok () := hall (elements[k], k) hmem
    exact (checkElement_eq_ok_iff (h _ hcoords)).mp hok
  · rintro hall ⟨coords, k⟩ hmem
    have hcoords := List.fst_mem_of_mem_zipIdx hmem
    exact (checkElement_eq_ok_iff (h coords hcoords)).mpr (hall coords hcoords)

/-- The element that the check reports comes after elements that the domain admits. -/
theorem exists_first_violation (helements : p.space.elements c = .ok elements)
    (h : ∀ coords ∈ elements, p.Checkable read c coords) (hrefused : p.check read c ≠ .ok ()) :
    ∃ k coords v f, elements[k]? = some coords ∧ p.read c coords = .ok v
      ∧ p.Violation read c k coords v f ∧ p.check read c = .refuse f
      ∧ ∀ i, i < k → ∀ other, elements[i]? = some other →
        ∃ w, p.read c other = .ok w ∧ p.domain.Admits read other w := by
  rw [check_eq helements] at hrefused ⊢
  rcases Outcome.forall_or_failsFirst (fun (coords, k) => p.checkElement read c k coords)
    elements.zipIdx with hall | ⟨⟨coords, k⟩, e, hfirst⟩
  · refine absurd (Outcome.forM_eq_ok_iff.mpr fun element helement => ?_) hrefused
    obtain ⟨⟨⟩, hok⟩ := hall element helement
    exact hok
  obtain ⟨hat, hearlier⟩ := hfirst.of_zipIdx
  obtain ⟨v, f, hread, hf, rfl⟩ :=
    exists_violation_of_error (h coords (List.mem_of_getElem? hat)) hfirst.error
  refine ⟨k, coords, v, f, hat, hread, hf, hfirst.forM, fun i hi other hother => ?_⟩
  obtain ⟨⟨⟩, hok⟩ := hearlier i hi other hother
  exact (checkElement_eq_ok_iff (h other (List.mem_of_getElem? hother))).mp hok

end Parameter

namespace Session

variable {s : Session Float} {ref : ParameterRef} {m : Model Float} {p : Parameter Float}

theorem checkParameter_eq (hm : s.model ref.model = .ok m) (hp : m.parameter ref.slot = .ok p) :
    s.checkParameter ref = p.check s.read m.catalog := by
  simp only [checkParameter, hm, hp, Outcome.ok_bind]

/-- A check of a parameter whose elements and bounds can all be read, as numbers, passes just if
the domain admits the value of every element. Otherwise it is refused as a violation of the domain,
for the first element in row-major order whose value the domain does not admit. If the size of some
dimension is unknown, it fails as the first such dimension does. What an element has for its value
is the default as long as the parameter is not populated; and after stores on dimensions of the
sizes that they have now it is what was last stored at it, else the default in force at the first
store. The integers of a model are signed words. -/
theorem checkParameter_first_violation (ref : ParameterRef) (hm : s.model ref.model = .ok m)
    (hp : m.parameter ref.slot = .ok p) (hc : m.catalog.InWords) (hspace : ∀ d ∈ p.space, d.InWords)
    (hreads : ∀ coords, p.space.InRange m.catalog coords →
      ∃ v, s.read ref coords = .ok v ∧ Scalar.isNumber v = true)
    (hbounds : ∀ coords, p.space.InRange m.catalog coords → p.domain.BoundsKnown s.read coords) :
    let admitted (coords : List Nat) : Prop :=
      ∃ v, s.read ref coords = .ok v ∧ p.domain.Admits s.read coords v
    ((∀ d ∈ p.space, ∃ n, m.catalog.size d = .ok n) →
        ∃ elements, p.space.Enumerates m.catalog elements
          ∧ (s.checkParameter ref = .ok ()
            ↔ ∀ coords, p.space.InRange m.catalog coords → admitted coords)
          ∧ ((∃ coords, p.space.InRange m.catalog coords ∧ ¬admitted coords) →
            ∃ k coords v f, elements[k]? = some coords ∧ s.read ref coords = .ok v
              ∧ ¬p.domain.Admits s.read coords v ∧ p.Violation s.read m.catalog k coords v f
              ∧ f.kind = .domainViolation ∧ s.checkParameter ref = .refuse f
              ∧ ∀ i, i < k → ∀ other, elements[i]? = some other → admitted other))
      ∧ (∀ d e, Outcome.FailsFirst m.catalog.size p.space d e → s.checkParameter ref = .error e)
      ∧ (p.populated = false → ∀ coords, s.read ref coords = .ok p.fallback)
      ∧ ∀ name history, (Model.empty name).run history = m →
        (∀ step ∈ (Model.empty name).trace history, step.2.storesInto ref.slot = true →
          (step.1.perform step.2).1 = .ok []
            ∧ ∀ d ∈ p.space, step.1.catalog.size d = m.catalog.size d) →
        ∀ coords, p.space.InRange m.catalog coords → s.read ref coords
          = .ok (Model.loaded ref.slot p ((Model.empty name).trace history) coords) := by
  intro admitted
  have hread (coords : List Nat) : s.read ref coords = p.read m.catalog coords :=
    read_of_model hm hp coords
  have hcheck := checkParameter_eq hm hp
  refine ⟨fun hsizes => ?_, fun d e hfirst => ?_, fun hempty coords => ?_, ?_⟩
  · obtain ⟨elements, helements, henumerates⟩ := Space.exists_enumeration hsizes
    have hcheckable : ∀ coords ∈ elements, p.Checkable s.read m.catalog coords := by
      intro coords hcoords
      have hrange := (henumerates.mem_iff coords).mp hcoords
      refine ⟨?_, hbounds coords hrange, Space.exists_labels_of_inRange hc hspace hrange⟩
      rw [← hread]
      exact hreads coords hrange
    have hiff : s.checkParameter ref = .ok ()
        ↔ ∀ coords, p.space.InRange m.catalog coords → admitted coords := by
      rw [hcheck, Parameter.check_eq_ok_iff helements hcheckable]
      refine forall_congr' fun coords => imp_congr (henumerates.mem_iff coords) ?_
      simp only [admitted, hread]
    refine ⟨elements, henumerates, hiff, fun ⟨stray, hstray, hnot⟩ => ?_⟩
    have hrefused : p.check s.read m.catalog ≠ .ok () :=
      hcheck ▸ fun hok => hnot (hiff.mp hok stray hstray)
    obtain ⟨k, coords, v, f, hat, hv, hf, hrefused, hearlier⟩ :=
      Parameter.exists_first_violation helements hcheckable hrefused
    simp only [admitted, hread, hcheck]
    exact ⟨k, coords, v, f, hat, hv, hf.not_admits, hf, hf.kind, hrefused, hearlier⟩
  · rw [hcheck, Parameter.check, Space.elements_of_unknown hfirst, Outcome.error_bind]
  · rw [hread, Parameter.read_of_unpopulated hempty]
  · rintro name history rfl hstores coords hrange
    rw [hread]
    refine ((Model.tracked_run rfl fun step hstep hstore => ?_).loaded p
      (Model.parameter_eq_ok_iff.mp hp) rfl).read_of_inRange hrange
    obtain ⟨hdone, hsizes⟩ := hstores step hstep hstore
    exact ⟨hdone, Model.agree_of_mem_trace hstep hrange hsizes⟩

/-- Two foods with a least amount for each, and a greatest amount, never stored, which has to be a
whole number and greater than the least one. -/
def boundedFoods : List (Action Float) :=
  [.addLabels ⟨"FOOD", .labelled⟩ ["BEEF", "CHK"],
    .declareParameter (some "f_min") [⟨"FOOD", .labelled⟩] (.atLeast (.const 0)) 0,
    .declareParameter (some "f_max") [⟨"FOOD", .labelled⟩] (.whole (.above (.parameter ⟨0, 0⟩))) 5,
    .storeLabelled 0 ["CHK"] 5]

/-- What these requests make of the two parameters. -/
def leastAmount : Parameter Float :=
  ⟨"f_min", [⟨"FOOD", .labelled⟩], .atLeast (.const 0), 0, [0, 5]⟩

def greatestAmount : Parameter Float :=
  ⟨"f_max", [⟨"FOOD", .labelled⟩], .whole (.above (.parameter ⟨0, 0⟩)), 5, []⟩

/-- The least amounts pass; the greatest amount of the second food is no greater than its least. -/
theorem checkParameter_of_boundedFoods :
    let m := (Model.empty none).run boundedFoods
    let s := Session.mk [m] []
    m.parameter 0 = .ok leastAmount ∧ m.parameter 1 = .ok greatestAmount
      ∧ s.checkParameter ⟨0, 0⟩ = .ok ()
      ∧ s.checkParameter ⟨0, 1⟩ = .refuse (.outsideDomain (Naming.indexed "f_max" ["CHK"])
        (Scalar.text (5 : Float)) ">" (Scalar.text (5 : Float))) := by
  intro m s
  have hrange {coords : List Nat} (h : Space.InRange m.catalog [⟨"FOOD", .labelled⟩] coords) :
      coords = [0] ∨ coords = [1] := by
    rcases h with _ | @⟨_, i, _, _, ⟨n, hn, hlt⟩, ⟨⟩⟩
    cases hn
    change i < 2 at hlt
    simp only [List.cons.injEq, and_true]
    omega
  have hsizes : ∀ d ∈ ([⟨"FOOD", .labelled⟩] : Space), ∃ n, m.catalog.size d = .ok n :=
    List.forall_mem_singleton.mpr ⟨2, rfl⟩
  have hzero : Scalar.isNumber (0 : Float) = true ∧ (0 : Float) ≤ 0 := by decide +kernel
  have hfive : Scalar.isNumber (5 : Float) = true ∧ (0 : Float) ≤ 5 := by decide +kernel
  have hleast {coords : List Nat} (h : Space.InRange m.catalog [⟨"FOOD", .labelled⟩] coords) :
      ∃ v, s.read ⟨0, 0⟩ coords = .ok v ∧ Scalar.isNumber v = true ∧ (0 : Float) ≤ v := by
    rcases hrange h with rfl | rfl
    · exact ⟨0, rfl, hzero⟩
    · exact ⟨5, rfl, hfive⟩
  have hsecond : ¬Clears true (5 : Float) 5 := (by decide +kernel : ¬(5 : Float) < 5)
  obtain ⟨hpasses, -⟩ := checkParameter_first_violation (s := s) (m := m) (p := leastAmount)
    ⟨0, 0⟩ rfl rfl (by decide) (by decide)
    (fun coords h => by
      obtain ⟨v, hv, hnumber, -⟩ := hleast h
      exact ⟨v, hv, hnumber⟩)
    (fun coords _ => ⟨fun b hb => ⟨0, by cases hb; rfl, hzero.1⟩, fun b hb => nomatch hb⟩)
  obtain ⟨hgreatest, -⟩ := checkParameter_first_violation (s := s) (m := m) (p := greatestAmount)
    ⟨0, 1⟩ rfl rfl (by decide) (by decide)
    (fun coords _ => ⟨5, rfl, hfive.1⟩)
    (fun coords h => by
      obtain ⟨v, hv, hnumber, -⟩ := hleast h
      refine ⟨fun b hb => ⟨v, ?_, hnumber⟩, fun b hb => nomatch hb⟩
      cases hb
      exact congrArg Outcome.escalate hv)
  refine ⟨rfl, rfl, ?_, ?_⟩
  · obtain ⟨-, -, hiff, -⟩ := hpasses hsizes
    refine hiff.mpr fun coords h => ?_
    obtain ⟨v, hv, -, hpos⟩ := hleast h
    exact ⟨v, hv, fun b hb => ⟨0, by cases hb; rfl, by cases hb; exact hpos⟩,
      fun b hb => (nomatch hb), fun hinteger => nomatch hinteger⟩
  · obtain ⟨elements, henumerates, -, hviolation⟩ := hgreatest hsizes
    obtain ⟨k, coords, v, f, hat, hv, -, hf, -, hrefused, -⟩ := hviolation
      ⟨[1], .cons ⟨2, rfl, by decide⟩ .nil, fun ⟨v, hv, hadmits⟩ => by
        obtain ⟨l, hl, hclears⟩ := hadmits.lower _ rfl
        cases hv
        cases hl
        exact hsecond hclears⟩
    cases hv
    rw [hrefused]
    cases hf with
    | lower hb hl hbeyond hlabels =>
        cases hb
        rcases hrange ((henumerates.mem_iff _).mp (List.mem_of_getElem? hat)) with rfl | rfl
        · cases hl
          exact absurd (by decide +kernel : (0 : Float) < 5) hbeyond
        · cases hl
          cases hlabels
          rfl
    | upper _ hb => cases hb
    | notWhole _ _ _ hwhole =>
        exact absurd ((Parameter.isWhole_iff_whole 5).mp (by decide +kernel)) hwhole

end Session

end LinearProgram
