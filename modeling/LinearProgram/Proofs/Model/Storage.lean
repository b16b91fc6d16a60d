import LinearProgram.Proofs.Expr.Affine
import LinearProgram.Proofs.Model.History
import LinearProgram.Proofs.Parameter
import Mathlib.Algebra.Order.BigOperators.Group.List

/-!
Tables whose dimensions change size after they have been allocated. An access compares the number
of elements only: it is refused whenever that number is another than the table holds, and where no
range has become shorter this makes it certain that all members are where they were. Ranges that
change in opposite directions can go unnoticed.
-/

namespace LinearProgram

variable {κ : Type}

/-- A request that brings in index data and nothing else. -/
def Action.OnIndexData : Action κ → Prop
  | .addLabels .. => True
  | .setLimit .. => True
  | _ => False

/-- A dimension has fewer elements than it had. -/
def Catalog.Shrunk (c c' : Catalog) (d : Dimension) : Prop :=
  ∃ n n', c.size d = .ok n ∧ c'.size d = .ok n' ∧ n' < n

theorem Catalog.Extends.not_shrunk {c c' : Catalog} {d : Dimension} (h : c.Extends c')
    (hextent : d.extent = .labelled) : ¬c.Shrunk c' d := by
  rintro ⟨n, n', hsize, hsize', hlt⟩
  rw [size_of_labelled hextent, Except.ok.injEq] at hsize hsize'
  have hle := (h d).length_le
  omega

theorem Shape.eq_of_le_of_prod_eq {before after : Shape}
    (h : List.Forall₂ (· ≤ ·) before after) (hprod : after.prod = before.prod)
    (hpos : before.prod ≠ 0) : after = before := by
  induction h with
  | nil => rfl
  | @cons n n' ds ds' hn hrest ih =>
      rw [List.prod_cons] at hpos
      rw [List.prod_cons, List.prod_cons] at hprod
      obtain ⟨hn0, hds0⟩ := Nat.mul_ne_zero_iff.mp hpos
      have hle : ds.prod ≤ ds'.prod := hrest.prod_le_prod'
      have hsize : n' = n := by
        by_contra hne
        have hlt : n * ds.prod < n' * ds'.prod :=
          Nat.mul_lt_mul_of_lt_of_le (by omega) hle (by omega)
        omega
      rw [hsize] at hprod ⊢
      rw [ih (Nat.eq_of_mul_eq_mul_left (by omega) hprod) hds0]

theorem Space.sizes_le {c c' : Catalog} {s : Space} {before after : Shape}
    (hbefore : s.sizes c = .ok before) (hafter : s.sizes c' = .ok after)
    (h : ∀ d ∈ s, ¬c.Shrunk c' d) : List.Forall₂ (· ≤ ·) before after := by
  rw [sizes_eq_ok_iff] at hbefore hafter
  induction hbefore generalizing after with
  | nil =>
      cases hafter
      exact .nil
  | cons hsize _ ih =>
      obtain ⟨hd, hs⟩ := List.forall_mem_cons.mp h
      cases hafter with
      | cons hsize' hrest =>
          refine .cons ?_ (ih hrest hs)
          by_contra hlt
          exact hd ⟨_, _, hsize, hsize', not_le.mp hlt⟩

namespace Model

variable {m m' : Model κ} {a : Action κ} {slot : Nat} {p : Parameter κ}

/-- What index data leaves as it is. -/
structure SameTables (m m' : Model κ) : Prop where
  parameters : m'.parameters = m.parameters
  frozen : m'.catalog.frozen = m.catalog.frozen
  catalog : m.catalog.Extends m'.catalog

theorem SameTables.perform (h : m.SameTables m') (ha : a.OnIndexData) :
    m.SameTables (m'.perform a).2 := by
  cases a with
  | addLabels d ls =>
      have hgrows := (SameLayout.addLabels d ls m').catalog
      constructor
      · exact (parameters_addLabels d ls m').trans h.parameters
      · exact hgrows.frozen_eq.trans h.frozen
      · exact h.catalog.trans hgrows.extends
  | setLimit marker v =>
      rcases m'.commit_cases [] (m'.setLimit marker v) with hkeep | hset
      · rw [Model.perform, hkeep]
        exact h
      · obtain ⟨c, hc, heq⟩ := setLimit_eq_ok hset
        rw [Model.perform, heq]
        obtain ⟨hopen, rfl⟩ := Catalog.setLimit_eq_ok hc
        exact ⟨h.parameters, h.frozen, h.catalog.trans (Catalog.extends_setLimit hc)⟩
  | _ => exact ha.elim

theorem sameTables_run {history : List (Action κ)} (h : ∀ a ∈ history, a.OnIndexData) :
    m.SameTables (m.run history) :=
  run_invariant (P := fun m' => m.SameTables m') (fun _ a ha hm => hm.perform (h a ha))
    ⟨rfl, rfl, .refl _⟩

/-- Some read of a parameter succeeds, or some store into it. -/
def Accessible (slot : Nat) (m : Model κ) : Prop :=
  (∃ p coords v, m.parameter slot = .ok p ∧ p.read m.catalog coords = .ok v)
    ∨ (∃ coords v, (m.store slot coords v).1 = .ok ())
    ∨ ∃ labels v, (m.storeLabelled slot labels v).1 = .ok ()

theorem store_of_parameter (hp : m.parameter slot = .ok p) (coords : List Nat) (v : κ) :
    (m.store slot coords v).1 = (p.store m.catalog coords v).1 := by
  rw [store, storeBy, hp]

theorem storeLabelled_of_parameter (hp : m.parameter slot = .ok p) (labels : List String) (v : κ) :
    (m.storeLabelled slot labels v).1 = (p.storeLabelled m.catalog labels v).1 := by
  rw [storeLabelled, storeBy, hp]

theorem Accessible.size_eq (h : m.Accessible slot) (hp : m.parameter slot = .ok p)
    (hpopulated : p.populated = true) : p.space.size m.catalog = .ok p.values.length := by
  have hstore {coords : List Nat} {v : κ} (hstored : (p.store m.catalog coords v).1 = .ok ()) :
      p.space.size m.catalog = .ok p.values.length := by
    obtain ⟨n, k, hn, -⟩ := Parameter.store_eq_ok hstored
    rw [hn.length hpopulated]
    exact hn.size
  rcases h with ⟨q, coords, v, hq, hread⟩ | ⟨coords, v, hstored⟩ | ⟨labels, v, hstored⟩
  · cases hp.symm.trans hq
    exact ((Parameter.read_eq_ok_iff hpopulated).mp hread).1
  · rw [store_of_parameter hp] at hstored
    exact hstore hstored
  · rw [storeLabelled_of_parameter hp] at hstored
    obtain ⟨coords, -, heq⟩ := Parameter.storeLabelled_eq_ok hstored
    rw [heq] at hstored
    exact hstore hstored

theorem SameTables.agree (h : m.SameTables m') (hpopulated : p.populated = true)
    (hsize : p.space.size m.catalog = .ok p.values.length)
    (hsize' : p.space.size m'.catalog = .ok p.values.length)
    (hranges : ∀ d ∈ p.space, d.extent ≠ .labelled → ¬m.catalog.Shrunk m'.catalog d) :
    p.space.Agree m.catalog m'.catalog := by
  obtain ⟨before, hbefore, -, hprod, -⟩ := Space.size_eq_ok hsize
  obtain ⟨after, hafter, -, hprod', -⟩ := Space.size_eq_ok hsize'
  have hpos : before.prod ≠ 0 := by
    rw [hprod]
    intro hzero
    rw [Parameter.populated, List.length_eq_zero_iff.mp hzero] at hpopulated
    cases hpopulated
  have hle : List.Forall₂ (· ≤ ·) before after := by
    apply Space.sizes_le hbefore hafter
    intro d hd
    by_cases hextent : d.extent = .labelled
    · exact h.catalog.not_shrunk hextent
    · exact hranges d hd hextent
  have hsame := Shape.eq_of_le_of_prod_eq hle (hprod'.trans hprod.symm) hpos
  subst hsame
  exact Space.agree_of_sizes h.catalog hbefore hafter

/-- Once a table is allocated, whatever index data comes in: an access succeeds only while the
space has as many elements as it had, every other is refused as a shape mismatch; and if no range
has become shorter, each label tuple leads to the element that it led to, whose value is
unchanged. -/
theorem access_of_allocated {history : List (Action κ)} (hp : m.parameter slot = .ok p)
    (hpopulated : p.populated = true) (hallocated : p.space.size m.catalog = .ok p.values.length)
    (hopen : m.catalog.frozen = false) (hhistory : ∀ a ∈ history, a.OnIndexData) :
    let m' := m.run history
    m'.parameter slot = .ok p
      ∧ (m'.Accessible slot → p.space.size m'.catalog = p.space.size m.catalog)
      ∧ (∀ n, p.space.size m'.catalog = .ok n → p.space.size m.catalog ≠ .ok n →
        (∀ coords, (p.read m'.catalog coords).RefusedAs .shapeMismatch)
        ∧ ∀ coords v, (m'.store slot coords v).1.RefusedAs .shapeMismatch)
      ∧ (m'.Accessible slot →
        (∀ d ∈ p.space, d.extent ≠ .labelled → ¬m.catalog.Shrunk m'.catalog d) →
        (∀ d ∈ p.space, m'.catalog.size d = m.catalog.size d)
        ∧ ∀ labels coords, p.space.resolve m.catalog labels = .ok coords →
          p.space.resolve m'.catalog labels = .ok coords
          ∧ p.read m'.catalog coords = p.read m.catalog coords) := by
  intro m'
  have hsame : m.SameTables m' := sameTables_run hhistory
  have hp' : m'.parameter slot = .ok p := by
    rw [parameter, hsame.parameters]
    exact hp
  refine ⟨hp', ?_, ?_, ?_⟩
  · intro haccess
    rw [haccess.size_eq hp' hpopulated, hallocated]
  · intro n hn hother
    have hlength : p.values.length ≠ n := by
      rintro rfl
      exact hother hallocated
    refine ⟨fun coords => Parameter.read_of_resized hpopulated hn hlength, fun coords v => ?_⟩
    rw [store_of_parameter hp']
    exact Parameter.store_of_resized (hsame.frozen.trans hopen) hpopulated hn hlength coords v
  · intro haccess hranges
    have hagree := hsame.agree hpopulated hallocated (haccess.size_eq hp' hpopulated) hranges
    obtain ⟨sizes, hsizes, -⟩ := Space.size_eq_ok hallocated
    refine ⟨fun d hd => (hagree d hd).size, fun labels coords hresolve => ⟨?_, ?_⟩⟩
    · exact hagree.resolve hsizes hresolve
    · exact Parameter.read_eq_of_agree hagree

/-- A table over two ranges, of two times three elements. -/
def tableHistory : List (Action Rat) :=
  [.setLimit "T" 2, .setLimit "N" (-1),
    .declareParameter (some "p") [⟨"R", .range 1 (.limit "T")⟩, ⟨"S", .range (-3) (.limit "N")⟩]
      .free 0,
    .storeLabelled 0 ["1", "-1"] 7]

/-- The table that this history leaves. -/
def sixTable : Parameter Rat :=
  ⟨"p", [⟨"R", .range 1 (.limit "T")⟩, ⟨"S", .range (-3) (.limit "N")⟩], .free, 0,
    [0, 0, 7, 0, 0, 0]⟩

/-- The first range becomes longer and the second shorter, so that there are six elements again. -/
def swapHistory : List (Action Rat) := [.setLimit "T" 3, .setLimit "N" (-2)]

theorem access_of_swapHistory :
    let m := (Model.empty none).run tableHistory
    m.parameter 0 = .ok sixTable ∧ sixTable.populated = true
      ∧ sixTable.space.size m.catalog = .ok sixTable.values.length
      ∧ m.catalog.frozen = false ∧ (∀ a ∈ swapHistory, a.OnIndexData)
      ∧ (m.run swapHistory).Accessible 0
      ∧ sixTable.space.size (m.run swapHistory).catalog = sixTable.space.size m.catalog := by
  intro m
  have hp : m.parameter 0 = .ok sixTable := rfl
  have hallocated : sixTable.space.size m.catalog = .ok sixTable.values.length := by decide
  have hdata : ∀ a ∈ swapHistory, a.OnIndexData := by simp [swapHistory, Action.OnIndexData]
  have haccess : (m.run swapHistory).Accessible 0 := .inl ⟨sixTable, [1, 0], 7, rfl, by decide⟩
  obtain ⟨-, hsize, -⟩ := access_of_allocated hp rfl hallocated rfl hdata
  exact ⟨hp, rfl, hallocated, rfl, hdata, haccess, hsize haccess⟩

/-- After the swap the element at the labels 2 and -3 reads as what was stored at 1 and -1. -/
theorem read_of_swapHistory :
    let m := (Model.empty none).run tableHistory
    let m' := m.run swapHistory
    m.parameter 0 = .ok sixTable ∧ m'.parameter 0 = .ok sixTable
      ∧ sixTable.space.sizes m.catalog = .ok [2, 3] ∧ sixTable.space.sizes m'.catalog = .ok [3, 2]
      ∧ sixTable.space.resolve m.catalog ["1", "-1"] = .ok [0, 2]
      ∧ sixTable.read m.catalog [0, 2] = .ok 7
      ∧ sixTable.space.resolve m'.catalog ["2", "-3"] = .ok [1, 0]
      ∧ sixTable.read m'.catalog [1, 0] = .ok 7 := by
  refine ⟨rfl, rfl, ?_, ?_, ?_, ?_, ?_, ?_⟩ <;> decide

end Model

end LinearProgram
