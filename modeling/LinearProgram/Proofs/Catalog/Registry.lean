import LinearProgram.Proofs.Catalog.Edits
import LinearProgram.Proofs.Expr.Affine

/-!
Index data stored twice. A registry files, beside the labels of a set, the offset of each label, and
makes a set when the set receives its first label. It answers every request as a catalog does, which
searches the labels.
-/

namespace LinearProgram

/-- A label set with the offsets of its labels filed beside the labels. -/
structure IndexedSet where
  name : String
  labels : List String
  offsets : List (String × Nat)
  inverse : ∀ l k, Keyed.find? l offsets = some k ↔ labels[k]? = some l

namespace IndexedSet

variable {s : IndexedSet} {l : String}

def empty (name : String) : IndexedSet where
  name
  labels := []
  offsets := []
  inverse := by simp [Keyed.find?]

/-- A label that is new to both stores can be put into both. -/
theorem inverse_put {labels : List String} {offsets : List (String × Nat)}
    (h : ∀ l k, Keyed.find? l offsets = some k ↔ labels[k]? = some l)
    (hnew : Keyed.find? l offsets = none) (l' : String) (k : Nat) :
    Keyed.find? l' (Keyed.put l labels.length offsets) = some k
      ↔ (labels ++ [l])[k]? = some l' := by
  -- both stores change at the new label and at the new place, and nowhere else
  by_cases hl : l' = l
  · subst hl
    have hfresh : labels[k]? ≠ some l' := by
      rw [Ne, ← h, hnew]
      exact (Option.some_ne_none k).symm
    rw [Keyed.find?_put_self, Option.some.injEq, List.getElem?_append]
    split
    · exact iff_of_false (by omega) hfresh
    · rw [List.getElem?_singleton]
      split
      · exact iff_of_true (by omega) rfl
      · exact iff_of_false (by omega) (Option.some_ne_none l').symm
  · rw [Keyed.find?_put_of_ne _ _ hl, h, List.getElem?_append]
    split
    · exact Iff.rfl
    · rw [List.getElem?_eq_none (by omega), List.getElem?_singleton]
      split
      · rw [Option.some.injEq]
        exact iff_of_false (Option.some_ne_none l').symm (Ne.symm hl)
      · exact Iff.rfl

/-- Appends a label unless an offset is filed for it. -/
def add (s : IndexedSet) (l : String) : Outcome Nat × IndexedSet :=
  match h : Keyed.find? l s.offsets with
  | some _ => (.refuse (.duplicateLabel l s.name), s)
  | none =>
    (.ok s.labels.length,
      { s with
        labels := s.labels ++ [l]
        offsets := Keyed.put l s.labels.length s.offsets
        inverse := inverse_put s.inverse h })

/-- The offset that is filed for a label. -/
def indexOf (s : IndexedSet) (l : String) : Outcome Nat :=
  match Keyed.find? l s.offsets with
  | some k => .ok k
  | none => .refuse (.unknownLabel l s.name)

theorem find?_eq_none_iff : Keyed.find? l s.offsets = none ↔ l ∉ s.labels := by
  rw [Option.eq_none_iff_forall_ne_some, List.mem_iff_getElem?, not_exists]
  exact forall_congr' fun k => not_congr (s.inverse l k)

theorem add_of_mem (h : l ∈ s.labels) : s.add l = (.refuse (.duplicateLabel l s.name), s) := by
  unfold add
  split
  · rfl
  · rename_i hnone
    exact (find?_eq_none_iff.mp hnone h).elim

theorem add_of_not_mem (h : l ∉ s.labels) :
    (s.add l).1 = .ok s.labels.length ∧ (s.add l).2.name = s.name
      ∧ (s.add l).2.labels = s.labels ++ [l] := by
  unfold add
  split
  · rename_i k hfound
    cases hfound.symm.trans (find?_eq_none_iff.mpr h)
  · exact ⟨rfl, rfl, rfl⟩

theorem nodup (s : IndexedSet) : s.labels.Nodup := by
  rw [List.nodup_iff_getElem?_ne_getElem?]
  intro i j hij hj hsame
  have hlabel := List.getElem?_eq_getElem hj
  have hoffset := (s.inverse _ j).mpr hlabel
  rw [(s.inverse _ i).mpr (hsame.trans hlabel)] at hoffset
  exact absurd (Option.some.inj hoffset) (Nat.ne_of_lt hij)

/-- The filed offset is the place at which a search finds the label. -/
theorem find?_eq_idxOf? (s : IndexedSet) (l : String) :
    Keyed.find? l s.offsets = s.labels.idxOf? l := by
  apply Option.ext
  intro k
  rw [s.inverse, idxOf?_eq_some_iff_getElem? s.nodup]

theorem indexOf_eq (s : IndexedSet) (l : String) :
    s.indexOf l = LabelSet.indexOf ⟨s.name, s.labels⟩ l := by
  rw [indexOf, find?_eq_idxOf?]
  rfl

end IndexedSet

structure Registry where
  sets : List (Dimension × IndexedSet)
  limits : List (Marker × Int)
  frozen : Bool

namespace Registry

def empty : Registry := ⟨[], [], false⟩

/-- The set of a dimension, made when it is first asked for. -/
def set (r : Registry) (d : Dimension) : IndexedSet :=
  (Keyed.find? d r.sets).getD (.empty d.name)

/-- Carries out a request. A set is put back in its place whether or not it has taken the label. -/
def edit (r : Registry) : Edit → Outcome (Option Nat) × Registry
  | .label d l =>
    if r.frozen then (.refuse (.lateLabel l d.name), r)
    else
      match d.extent with
      | .range .. => (.refuse (.labelForRange d.name), r)
      | .labelled =>
        let (o, s) := (r.set d).add l
        (return some (← o), { r with sets := Keyed.put d s r.sets })
  | .limit marker v =>
    if r.frozen then (.refuse (.lateLimit marker.name), r)
    else (.ok none, { r with limits := Keyed.put marker v r.limits })
  | .freeze => (.ok none, { r with frozen := true })

def edits (r : Registry) (es : List Edit) : Registry := es.foldl (fun r e => (r.edit e).2) r

/-- A registry and a catalog with the same content. -/
structure Represents (r : Registry) (c : Catalog) : Prop where
  sets : c.sets = r.sets.map fun p => (p.1, p.2.labels)
  limits : c.limits = r.limits
  frozen : c.frozen = r.frozen
  names : ∀ d s, Keyed.find? d r.sets = some s → s.name = d.name

namespace Represents

variable {r : Registry} {c c' : Catalog} {d : Dimension} {e : Edit} {f : Fault} {l : String}
  {k : Nat}

theorem empty : Registry.empty.Represents Catalog.empty :=
  ⟨rfl, rfl, rfl, fun _ _ h => (Option.some_ne_none _ h.symm).elim⟩

theorem labels_set (h : r.Represents c) (d : Dimension) : (r.set d).labels = c.labels d := by
  rw [set, Catalog.labels, h.sets, Keyed.find?_map IndexedSet.labels]
  cases Keyed.find? d r.sets with
  | none => rfl
  | some s => rfl

theorem name_set (h : r.Represents c) (d : Dimension) : (r.set d).name = d.name := by
  rw [set]
  cases hfound : Keyed.find? d r.sets with
  | none => rfl
  | some s => exact h.names d s hfound

theorem indexOf_set (h : r.Represents c) (hextent : d.extent = .labelled) :
    (r.set d).indexOf l = c.indexOf d l := by
  rw [IndexedSet.indexOf_eq, h.labels_set, h.name_set, Catalog.indexOf, hextent]
  rfl

/-- The set that holds a label has been made. -/
theorem put_set (h : r.Represents c) (hl : l ∈ c.labels d) :
    Keyed.put d (r.set d) r.sets = r.sets := by
  rw [← h.labels_set] at hl
  rw [set] at hl ⊢
  cases hfound : Keyed.find? d r.sets with
  | none =>
      rw [hfound] at hl
      cases hl
  | some s => exact Keyed.put_of_find? hfound

theorem not_frozen (h : r.Represents c) (hopen : c.frozen = false) : ¬r.frozen = true := by
  rw [← h.frozen, hopen]
  exact Bool.false_ne_true

theorem edit_of_rejects (h : r.Represents c) (hrejects : c.Rejects e f) :
    r.edit e = (.refuse f, r) := by
  cases hrejects with
  | lateLabel hfrozen => rw [edit, if_pos (h.frozen ▸ hfrozen)]
  | labelForRange hopen hd =>
      rw [edit, if_neg (h.not_frozen hopen)]
      split
      · rfl
      · rename_i hextent
        exact (hd hextent).elim
  | duplicateLabel hopen hd hl =>
      rw [edit, if_neg (h.not_frozen hopen), hd]
      dsimp only
      rw [IndexedSet.add_of_mem (by rw [h.labels_set]; exact hl), h.name_set]
      dsimp only
      rw [h.put_set hl]
      rfl
  | lateLimit hfrozen => rw [edit, if_pos (h.frozen ▸ hfrozen)]

theorem names_put (h : r.Represents c) {s : IndexedSet} (hs : s.name = d.name) (d' : Dimension)
    (s' : IndexedSet) (hfound : Keyed.find? d' (Keyed.put d s r.sets) = some s') :
    s'.name = d'.name := by
  by_cases hd : d' = d
  · subst hd
    rw [Keyed.find?_put_self, Option.some.injEq] at hfound
    exact hfound ▸ hs
  · rw [Keyed.find?_put_of_ne _ _ hd] at hfound
    exact h.names d' s' hfound

/-- Both answer a request alike, and still have the same content. -/
theorem step {o : Outcome (Option Nat)} (h : r.Represents c) (hstep : c.Step e o c') :
    (r.edit e).1 = o ∧ (r.edit e).2.Represents c' := by
  cases hstep with
  | label hadd =>
      rename_i d l k
      obtain ⟨hopen, hextent, hnew, rfl, rfl⟩ := Catalog.addLabel_eq_ok hadd
      rw [← h.labels_set] at hnew
      obtain ⟨hoffset, hname, hlabels⟩ := IndexedSet.add_of_not_mem hnew
      rw [edit, if_neg (h.not_frozen hopen), hextent]
      dsimp only
      refine ⟨?_, ?_, h.limits, h.frozen, h.names_put (hname.trans (h.name_set d))⟩
      · rw [hoffset, h.labels_set]
        rfl
      · rw [← Keyed.put_map IndexedSet.labels, hlabels, h.labels_set, h.sets]
  | limit hset =>
      obtain ⟨hopen, rfl⟩ := Catalog.setLimit_eq_ok hset
      rw [edit, if_neg (h.not_frozen hopen)]
      exact ⟨rfl, h.sets, congrArg (Keyed.put _ _) h.limits, h.frozen, h.names⟩
  | freeze => exact ⟨rfl, h.sets, h.limits, rfl, h.names⟩
  | rejected hf =>
      rw [h.edit_of_rejects hf]
      exact ⟨rfl, h⟩

theorem edits (h : r.Represents c) (es : List Edit) : (r.edits es).Represents (c.edits es) := by
  induction es generalizing r c with
  | nil => exact h
  | cons e es ih => exact ih (h.step (c.step_edit e)).2

end Represents

end Registry

/-! ### Index data after any requests -/

namespace Catalog

/-- A dimension with the given labels, each of them found at its own place. -/
structure Lists (c : Catalog) (d : Dimension) (ls : List String) : Prop where
  labels : c.labels d = ls
  nodup : ls.Nodup
  size : c.size d = .ok ls.length
  label : ∀ l k, c.label d k = .ok l ↔ ls[k]? = some l
  indexOf : ∀ l k, c.indexOf d l = .ok k ↔ c.label d k = .ok l

theorem Distinct.lists {c : Catalog} (hc : c.Distinct) {d : Dimension}
    (hextent : d.extent = .labelled) : c.Lists d (c.labels d) where
  labels := rfl
  nodup := hc d
  size := size_of_labelled hextent
  label _ _ := label_eq_ok_iff hextent
  indexOf _ _ := indexOf_eq_ok_iff_label hc hextent

/-- A request that is answered alike by both stores, leaves alone the sets and limits that it does
not name and, if it fails, everything. -/
structure Local (c : Catalog) (r : Registry) (e : Edit) : Prop where
  answer : (r.edit e).1 = (c.edit e).1
  labelSet : ∀ d, (∀ l, e ≠ .label d l) → (c.edit e).2.labelSet d = c.labelSet d
  limit : ∀ marker, (∀ v, e ≠ .limit marker v) → (c.edit e).2.limit? marker = c.limit? marker
  fails_iff : ∀ x, (c.edit e).1 = .error x ↔ ∃ f, x = .fault f ∧ c.Rejects e f
  failed : ∀ x, (c.edit e).1 = .error x → (c.edit e).2 = c ∧ (r.edit e).2 = r

theorem local_of_represents {c : Catalog} {r : Registry} (hr : r.Represents c) (e : Edit) :
    c.Local r e where
  answer := (hr.step (c.step_edit e)).1
  labelSet d hd := congrArg (LabelSet.mk d.name) ((c.step_edit e).labels_eq_of_ne hd)
  limit marker hmarker := (c.step_edit e).limit?_eq_of_ne hmarker
  fails_iff _ := edit_eq_error_iff
  failed x hx := by
    obtain ⟨f, -, hf⟩ := edit_eq_error_iff.mp hx
    rw [edit_of_rejects hf, hr.edit_of_rejects hf]
    exact ⟨rfl, rfl⟩

/-- After any requests a set lists the labels that it has received, in their order, in both stores.
The next request, whichever it is, acts on what it names alone, and fails for the reasons that
`Rejects` lists and no others. An offset that it gives to a label belongs to that label from then
on. Of several labels given to a model at once, those before the first that is refused are added. -/
theorem index_data_of_edits (κ : Type) (es : List Edit) :
    let c := Catalog.empty.edits es
    let r := Registry.empty.edits es
    (∀ d : Dimension, d.extent = .labelled → c.Lists d (Catalog.empty.received d es)
        ∧ (r.set d).labels = c.labels d ∧ ∀ l, (r.set d).indexOf l = c.indexOf d l)
      ∧ (∀ e, c.Local r e)
      ∧ (∀ d l k, (c.edit (.label d l)).1 = .ok (some k) → ∀ later,
        let c' := (c.edit (.label d l)).2.edits later
        c'.label d k = .ok l ∧ c'.indexOf d l = .ok k)
      ∧ ∀ (m : Model κ) (d : Dimension) (ls : List String) (x : Failure),
        (m.addLabels d ls).1 = .error x → ∃ k l, ls[k]? = some l
          ∧ (m.addLabels d ls).2
            = { m with catalog := m.catalog.edits ((ls.take k).map (.label d)) }
          ∧ (∀ e, (m.addLabels d ls).2.catalog.labels e
            = m.catalog.labels e ++ if d = e then ls.take k else [])
          ∧ (m.addLabels d ls).2.catalog.addLabel d l = .error x := by
  intro c r
  have hc : c.Distinct := distinct_empty.edits es
  have hr : r.Represents c := Registry.Represents.empty.edits es
  refine ⟨fun d hextent => ⟨?_, hr.labels_set d, fun l => hr.indexOf_set hextent⟩,
    local_of_represents hr, fun d l k hk later => label_edits_of_offset hc hk later,
    fun m d ls x hx => ?_⟩
  · have hlabels : c.labels d = Catalog.empty.received d es := labels_edits Catalog.empty es d
    rw [← hlabels]
    exact hc.lists hextent
  · obtain ⟨k, l, hl, ⟨offsets, hoffsets⟩, hsame, hrefused⟩ := Model.exists_refused_of_addLabels hx
    refine ⟨k, l, hl, ?_, fun e => ?_, hrefused⟩
    · rw [← hsame]
      exact Model.catalog_addLabels hoffsets
    · rw [← hsame]
      exact Model.labels_addLabels hoffsets e

/-- Labels for two sets, one of them twice and one of them for a range as well. -/
def mixedEdits : List Edit :=
  [.label ⟨"A", .labelled⟩ "x", .label ⟨"B", .labelled⟩ "x", .label ⟨"A", .labelled⟩ "x",
    .limit "T" 3, .label ⟨"R", .range 1 (.limit "T")⟩ "x"]

theorem index_data_of_mixedEdits :
    let c := Catalog.empty.edits mixedEdits
    let a : Dimension := ⟨"A", .labelled⟩
    let after := (c.edit (.label a "y")).2.edits [.freeze, .label a "z"]
    let m : Model Rat := { (Model.empty none : Model Rat) with catalog := c }
    c.Lists a ["x"]
      ∧ (c.edit (.label a "y")).2.labelSet ⟨"B", .labelled⟩ = ⟨"B", ["x"]⟩
      ∧ (c.edit (.label a "y")).2.limit? "T" = some 3
      ∧ (c.edit (.label a "x")).2 = c
      ∧ (c.edit (.label a "x")).1 = .refuse (.duplicateLabel "x" "A")
      ∧ after.label a 1 = .ok "y" ∧ after.indexOf a "y" = .ok 1
      ∧ ∃ k l, ["u", "v", "x", "w"][k]? = some l
        ∧ (m.addLabels a ["u", "v", "x", "w"]).2.catalog.labels a
          = ["x"] ++ ["u", "v", "x", "w"].take k := by
  intro c a after m
  obtain ⟨hlists, hlocal, hoffset, hseveral⟩ := index_data_of_edits Rat mixedEdits
  have hduplicate : c.Rejects (.label a "x") (.duplicateLabel "x" "A") :=
    .duplicateLabel rfl rfl List.mem_cons_self
  have hfails := ((hlocal (.label a "x")).fails_iff _).mpr ⟨_, rfl, hduplicate⟩
  have hother : ∀ l, Edit.label a "y" ≠ .label ⟨"B", .labelled⟩ l := by
    intro l
    simp [a]
  obtain ⟨hlabel, hindex⟩ := hoffset a "y" 1 rfl [.freeze, .label a "z"]
  obtain ⟨k, l, hl, -, hlabels, -⟩ := hseveral m a ["u", "v", "x", "w"] _ rfl
  exact ⟨(hlists a rfl).1, (hlocal (.label a "y")).labelSet _ hother,
    (hlocal (.label a "y")).limit _ fun v => Edit.noConfusion,
    ((hlocal (.label a "x")).failed _ hfails).1, hfails, hlabel, hindex, k, l, hl, hlabels a⟩

end Catalog

end LinearProgram
