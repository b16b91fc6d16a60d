import LinearProgram.Proofs.Catalog.Members
import LinearProgram.Proofs.Model.History

/-!
Requests on index data, one after another. A request that is rejected changes nothing. One that is
not appends a label to one set, gives one limit a value, or freezes the catalog; so the labels of a
set stand in the order in which they were received, and an offset keeps its label.
-/

namespace LinearProgram

/-- A request to change the index data. -/
inductive Edit
  | label (d : Dimension) (l : String)
  | limit (marker : Marker) (v : Int)
  | freeze
  deriving DecidableEq

/-- The label that a request has added to a dimension, if its outcome says that it has added one. -/
def Edit.received (d : Dimension) : Edit → Outcome (Option Nat) → List String
  | .label e l, .ok _ => if e = d then [l] else []
  | _, _ => []

namespace Catalog

/-- Carries out a request. The answer to a label is its offset. -/
def edit (c : Catalog) : Edit → Outcome (Option Nat) × Catalog
  | .label d l =>
    match c.addLabel d l with
    | .error e => (.error e, c)
    | .ok (k, c') => (.ok (some k), c')
  | .limit marker v =>
    match c.setLimit marker v with
    | .error e => (.error e, c)
    | .ok c' => (.ok none, c')
  | .freeze => (.ok none, c.freeze)

/-- A catalog after some requests, rejected ones among them. -/
def edits (c : Catalog) (es : List Edit) : Catalog := es.foldl (fun c e => (c.edit e).2) c

/-- The labels that requests add to a dimension, in the order of the requests that add them. -/
def received (d : Dimension) (c : Catalog) : List Edit → List String
  | [] => []
  | e :: es => e.received d (c.edit e).1 ++ received d (c.edit e).2 es

/-- The requests that a catalog turns away. -/
inductive Rejects (c : Catalog) : Edit → Fault → Prop
  | lateLabel {d : Dimension} {l : String} (h : c.frozen = true) :
      Rejects c (.label d l) (.lateLabel l d.name)
  | labelForRange {d : Dimension} {l : String} (h : c.frozen = false) (hd : d.extent ≠ .labelled) :
      Rejects c (.label d l) (.labelForRange d.name)
  | duplicateLabel {d : Dimension} {l : String} (h : c.frozen = false) (hd : d.extent = .labelled)
      (hl : l ∈ c.labels d) : Rejects c (.label d l) (.duplicateLabel l d.name)
  | lateLimit {marker : Marker} {v : Int} (h : c.frozen = true) :
      Rejects c (.limit marker v) (.lateLimit marker.name)

/-- What one request does. -/
inductive Step (c : Catalog) : Edit → Outcome (Option Nat) → Catalog → Prop
  | label {c' : Catalog} {d : Dimension} {l : String} {k : Nat} (h : c.addLabel d l = .ok (k, c')) :
      Step c (.label d l) (.ok (some k)) c'
  | limit {c' : Catalog} {marker : Marker} {v : Int} (h : c.setLimit marker v = .ok c') :
      Step c (.limit marker v) (.ok none) c'
  | freeze : Step c .freeze (.ok none) c.freeze
  | rejected {e : Edit} {f : Fault} (h : c.Rejects e f) : Step c e (.refuse f) c

variable {c c' : Catalog} {d : Dimension} {e : Edit} {f : Fault} {l : String} {k : Nat}

theorem addLabel_eq_refuse (h : c.Rejects (.label d l) f) : c.addLabel d l = .refuse f := by
  cases h with
  | lateLabel hfrozen => exact addLabel_of_frozen hfrozen d l
  | labelForRange hopen hd =>
      rw [addLabel, hopen, if_neg Bool.false_ne_true]
      cases hextent : d.extent with
      | labelled => exact (hd hextent).elim
      | range lower e => rfl
  | duplicateLabel hopen hd hl =>
      rw [addLabel, hopen, if_neg Bool.false_ne_true, hd]
      dsimp only
      rw [LabelSet.add, if_pos (by exact hl)]
      rfl

theorem edit_of_rejects (h : c.Rejects e f) : c.edit e = (.refuse f, c) := by
  cases e with
  | label d l =>
      rw [edit, addLabel_eq_refuse h]
      rfl
  | limit marker v =>
      cases h with
      | lateLimit hfrozen =>
          rw [edit, setLimit_of_frozen hfrozen]
          rfl
  | freeze => cases h

theorem step_edit (c : Catalog) (e : Edit) : c.Step e (c.edit e).1 (c.edit e).2 := by
  by_cases hrejects : ∃ f, c.Rejects e f
  · obtain ⟨f, hf⟩ := hrejects
    rw [edit_of_rejects hf]
    exact .rejected hf
  -- no reason to turn the request away is left, so each of its checks passes
  have haccepts : ∀ f, ¬c.Rejects e f := not_exists.mp hrejects
  cases e with
  | label d l =>
      have hopen : c.frozen = false := by
        apply Bool.eq_false_of_not_eq_true
        exact fun hfrozen => haccepts _ (.lateLabel hfrozen)
      have hd : d.extent = .labelled := by
        by_contra hd
        exact haccepts _ (.labelForRange hopen hd)
      have hadd := addLabel_of_new hopen hd fun hl => haccepts _ (.duplicateLabel hopen hd hl)
      rw [edit, hadd]
      exact .label hadd
  | limit marker v =>
      have hopen : c.frozen = false := by
        apply Bool.eq_false_of_not_eq_true
        exact fun hfrozen => haccepts _ (.lateLimit hfrozen)
      have hset := setLimit_of_open hopen marker v
      rw [edit, hset]
      exact .limit hset
  | freeze => exact .freeze

/-- A request fails just when the catalog turns it away. -/
theorem edit_eq_error_iff {x : Failure} :
    (c.edit e).1 = .error x ↔ ∃ f, x = .fault f ∧ c.Rejects e f := by
  constructor
  · intro hx
    have hstep := c.step_edit e
    rw [hx] at hstep
    generalize (c.edit e).2 = c' at hstep
    cases hstep with
    | rejected h => exact ⟨_, rfl, h⟩
  · rintro ⟨f, rfl, h⟩
    rw [edit_of_rejects h]
    rfl

theorem edit_label_eq_ok (h : (c.edit (.label d l)).1 = .ok (some k)) :
    c.addLabel d l = .ok (k, (c.edit (.label d l)).2) := by
  have hstep := c.step_edit (.label d l)
  rw [h] at hstep
  cases hstep with
  | label hadd => exact hadd

/-! ### What one request changes -/

namespace Step

variable {o : Outcome (Option Nat)}

theorem labels_eq (h : c.Step e o c') (d : Dimension) :
    c'.labels d = c.labels d ++ e.received d o := by
  cases h with
  | label hadd => exact labels_addLabel hadd d
  | limit hset =>
      obtain ⟨-, rfl⟩ := setLimit_eq_ok hset
      exact (List.append_nil _).symm
  | freeze => exact (List.append_nil _).symm
  | rejected hf => cases hf <;> exact (List.append_nil _).symm

/-- The labels of other dimensions are not touched. -/
theorem labels_eq_of_ne (h : c.Step e o c') (hother : ∀ l, e ≠ .label d l) :
    c'.labels d = c.labels d := by
  cases h with
  | label hadd =>
      rename_i d' l k
      have hd : d' ≠ d := fun heq => hother l (heq ▸ rfl)
      rw [labels_addLabel hadd, if_neg hd, List.append_nil]
  | limit hset =>
      obtain ⟨-, rfl⟩ := setLimit_eq_ok hset
      rfl
  | freeze => rfl
  | rejected hf => rfl

/-- The values of other limits are not touched. -/
theorem limit?_eq_of_ne {marker : Marker} (h : c.Step e o c')
    (hother : ∀ v, e ≠ .limit marker v) : c'.limit? marker = c.limit? marker := by
  cases h with
  | label hadd =>
      obtain ⟨-, -, -, -, rfl⟩ := addLabel_eq_ok hadd
      rfl
  | limit hset =>
      rename_i marker' v
      have hmarker : marker' ≠ marker := fun heq => hother v (heq ▸ rfl)
      rw [limit?_setLimit hset, if_neg hmarker]
  | freeze => rfl
  | rejected hf => rfl

theorem distinct (h : c.Step e o c') (hc : c.Distinct) : c'.Distinct := by
  cases h with
  | label hadd => exact hc.addLabel hadd
  | limit hset => exact hc.setLimit hset
  | freeze => exact hc
  | rejected hf => exact hc

end Step

/-! ### Runs of requests -/

theorem labels_edits (c : Catalog) (es : List Edit) (d : Dimension) :
    (c.edits es).labels d = c.labels d ++ c.received d es := by
  induction es generalizing c with
  | nil => exact (List.append_nil _).symm
  | cons e es ih =>
      calc (c.edits (e :: es)).labels d
          = (c.edit e).2.labels d ++ (c.edit e).2.received d es := ih (c.edit e).2
        _ = c.labels d ++ c.received d (e :: es) := by
          rw [(c.step_edit e).labels_eq, List.append_assoc, received]

theorem Distinct.edits (hc : c.Distinct) (es : List Edit) : (c.edits es).Distinct := by
  induction es generalizing c with
  | nil => exact hc
  | cons e es ih => exact ih ((c.step_edit e).distinct hc)

theorem extends_edits (c : Catalog) (es : List Edit) : c.Extends (c.edits es) :=
  fun d => ⟨_, (c.labels_edits es d).symm⟩

theorem Extends.label_eq (h : c.Extends c') (hextent : d.extent = .labelled)
    (hl : c.label d k = .ok l) : c'.label d k = .ok l := by
  rw [label_eq_ok_iff hextent] at hl ⊢
  obtain ⟨later, hlater⟩ := h d
  rw [← hlater]
  exact List.getElem?_append_left (List.getElem?_eq_some_iff.mp hl).1 ▸ hl

/-- The offset that a label is given denotes it from then on. -/
theorem label_edits_of_offset (hc : c.Distinct) (h : (c.edit (.label d l)).1 = .ok (some k))
    (later : List Edit) :
    ((c.edit (.label d l)).2.edits later).label d k = .ok l
      ∧ ((c.edit (.label d l)).2.edits later).indexOf d l = .ok k := by
  have hadd := edit_label_eq_ok h
  obtain ⟨-, hextent, -, rfl, -⟩ := addLabel_eq_ok hadd
  have hlabel : (c.edit (.label d l)).2.label d (c.labels d).length = .ok l := by
    rw [label_eq_ok_iff hextent, labels_addLabel hadd, if_pos rfl]
    exact List.getElem?_concat_length
  have hlater := (extends_edits (c.edit (.label d l)).2 later).label_eq hextent hlabel
  have hdistinct := ((c.step_edit (.label d l)).distinct hc).edits later
  exact ⟨hlater, (indexOf_eq_ok_iff_label hdistinct hextent).mpr hlater⟩

end Catalog

/-! ### Several labels at once -/

namespace Model

variable {κ : Type} {m : Model κ} {d : Dimension} {l : String} {ls : List String} {x : Failure}

/-- When a label is refused, the labels before it have been added, and nothing else has been
done. -/
theorem exists_refused_of_addLabels (h : (m.addLabels d ls).1 = .error x) :
    ∃ k l, ls[k]? = some l ∧ (∃ offsets, (m.addLabels d (ls.take k)).1 = .ok offsets)
      ∧ (m.addLabels d (ls.take k)).2 = (m.addLabels d ls).2
      ∧ (m.addLabels d ls).2.catalog.addLabel d l = .error x := by
  induction ls generalizing m with
  | nil => cases h
  | cons l ls ih =>
      rw [addLabels] at h ⊢
      cases hadd : m.catalog.addLabel d l with
      | error e =>
          rw [hadd] at h
          cases h
          exact ⟨0, l, rfl, ⟨[], rfl⟩, rfl, hadd⟩
      | ok added =>
          obtain ⟨offset, c⟩ := added
          rw [hadd] at h
          dsimp only at h ⊢
          have hrest : (addLabels d ls { m with catalog := c }).1 = .error x := by
            rcases Outcome.bind_eq_error_iff.mp h with hfail | ⟨offsets, -, hdone⟩
            · exact hfail
            · cases hdone
          obtain ⟨k, l', hl', ⟨offsets, hoffsets⟩, hsame, hrefused⟩ := ih hrest
          refine ⟨k + 1, l', hl', ⟨offset :: offsets, ?_⟩, ?_, hrefused⟩
          · rw [List.take_succ_cons, addLabels, hadd]
            dsimp only
            rw [hoffsets]
            rfl
          · rw [List.take_succ_cons, addLabels, hadd]
            exact hsame

/-- Labels that are all added are added one by one. -/
theorem catalog_addLabels {offsets : List Nat} (h : (m.addLabels d ls).1 = .ok offsets) :
    (m.addLabels d ls).2 = { m with catalog := m.catalog.edits (ls.map (.label d)) } := by
  induction ls generalizing m offsets with
  | nil => rfl
  | cons l ls ih =>
      rw [addLabels] at h ⊢
      cases hadd : m.catalog.addLabel d l with
      | error e =>
          rw [hadd] at h
          cases h
      | ok added =>
          obtain ⟨offset, c⟩ := added
          rw [hadd] at h
          obtain ⟨rest, hrest, -⟩ := Outcome.bind_eq_ok_iff.mp h
          have hedit : (m.catalog.edit (.label d l)).2 = c := by rw [Catalog.edit, hadd]
          rw [List.map_cons, Catalog.edits, List.foldl_cons, hedit]
          exact ih hrest

end Model

end LinearProgram
