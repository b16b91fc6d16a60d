import LinearProgram.Model.Basic
import LinearProgram.Proofs.Expr.Built
import LinearProgram.Proofs.Expr.Postings
import LinearProgram.Proofs.Scalar.Addition

/-!
Ways of adding up a list of expressions. A sum is seen by its tally: what it holds in every column
and its constant, as far as numbers are told apart. An expression contributes to a column at most
once, so to add it, whichever operand takes in the other, is to join one tally to another. Main
statement: since every way joins the same tallies in the same order, all end with the same linear
form; at no step are three numbers grouped in two ways.
-/

namespace LinearProgram

variable {κ : Type} [Scalar κ] {R : κ → κ → Prop}

/-- The same columns, with numbers that `R` does not tell apart. -/
def LinearForm.EqualUpTo {κ : Type} (R : κ → κ → Prop) (f g : LinearForm κ) : Prop :=
  List.Forall₂ (fun p q => p.1 = q.1 ∧ R p.2 q.2) f.entries g.entries ∧ R f.constant g.constant

/-! ### Columns -/

omit [Scalar κ] in
theorem LinearSum.head_le_of_find? {p : Nat × κ} {rest : List (Nat × κ)} {j : Nat}
    (h : (p :: rest).Pairwise (·.1 < ·.1)) (hj : Keyed.find? j (p :: rest) ≠ none) : p.1 ≤ j := by
  by_contra hlt
  obtain ⟨hfirst, -⟩ := List.pairwise_cons.mp h
  have hbefore : ∀ q ∈ p :: rest, j < q.1 := by
    refine List.forall_mem_cons.mpr ⟨by omega, fun q hq => ?_⟩
    have := hfirst q hq
    omega
  exact hj (find?_of_lt hbefore)

theorem Expr.Filed.raw_entries {e : Expr κ} (he : e.Filed) :
    e.raw.entries = e.terms.map fun t => (t.column, t.coefficient) := by
  cases e with
  | const v => rfl
  | var x => rfl
  | term t => rfl
  | sum s =>
      rw [Expr.raw, Expr.terms, LinearSum.entries, List.map_map]
      refine List.map_congr_left fun p hp => ?_
      obtain ⟨-, hcolumn⟩ := Variable.column_eq_ok_iff.mp (LinearSum.Filed.column he p hp)
      exact congrArg (·, p.2.coefficient) hcolumn.symm

omit [Scalar κ] in
theorem Term.contribution_of_ascending {ts : List (Term κ)}
    (h : (ts.map fun t => (t.column, t.coefficient)).Pairwise (·.1 < ·.1)) (j : Nat) :
    (ts.filter (·.column = j)).map Term.coefficient
      = (Keyed.find? j (ts.map fun t => (t.column, t.coefficient))).toList := by
  induction ts with
  | nil => rfl
  | cons t ts ih =>
      obtain ⟨hfirst, hrest⟩ := List.pairwise_cons.mp h
      rw [List.map_cons, Keyed.find?]
      by_cases ht : t.column = j
      · have hothers : ts.filter (·.column = j) = [] := by
          rw [List.filter_eq_nil_iff]
          intro t' ht'
          have hlt : t.column < t'.column := hfirst _ (List.mem_map_of_mem ht')
          simpa using by omega
        rw [List.filter_cons_of_pos (by simpa using ht), hothers, if_pos ht]
        rfl
      · rw [List.filter_cons_of_neg (by simpa using ht), if_neg ht, ih hrest]

/-- An expression contributes to a column at most once. -/
theorem Expr.Filed.contribution {e : Expr κ} (he : e.Filed) (j : Nat) :
    (e.terms.filter (·.column = j)).map Term.coefficient
      = (Keyed.find? j e.raw.entries).toList := by
  have hascending := he.ascending
  rw [he.raw_entries] at hascending ⊢
  exact Term.contribution_of_ascending hascending j

namespace Scalar.CommutesUpTo

/-! ### Numbers that are not told apart -/

def Class (hR : CommutesUpTo R) : Type := Quotient ⟨R, hR.equivalence⟩

variable (hR : CommutesUpTo R)

def classOf (v : κ) : hR.Class := Quotient.mk _ v

def plus : hR.Class → hR.Class → hR.Class :=
  Quotient.map₂ (· + ·) fun _ _ hu _ _ hv => hR.add_congr hu hv

theorem classOf_eq_iff {u v : κ} : hR.classOf u = hR.classOf v ↔ R u v := Quotient.eq

theorem plus_comm (x y : hR.Class) : hR.plus x y = hR.plus y x := by
  induction x, y using Quotient.inductionOn₂ with
  | h u v => exact hR.classOf_eq_iff.mpr (hR.add_comm u v)

theorem zero_plus (x : hR.Class) : hR.plus (hR.classOf 0) x = x := by
  induction x using Quotient.inductionOn with
  | h v => exact hR.classOf_eq_iff.mpr (hR.zero_add v)

/-! ### Tallies -/

/-- What is held in every column, and the constant. -/
@[ext]
structure Tally where
  coefficient? : Nat → Option hR.Class
  constant : hR.Class

def tally (e : Expr κ) : hR.Tally :=
  ⟨fun j => (Keyed.find? j e.raw.entries).map hR.classOf, hR.classOf e.raw.constant⟩

namespace Tally

variable {hR} (a b : hR.Tally)

def empty : hR.Tally := ⟨fun _ => none, hR.classOf 0⟩

def join : hR.Tally :=
  ⟨fun j => (a.coefficient? j).merge hR.plus (b.coefficient? j), hR.plus a.constant b.constant⟩

theorem join_comm : a.join b = b.join a := by
  have hplus : Std.Commutative hR.plus := ⟨hR.plus_comm⟩
  apply Tally.ext
  · funext j
    exact (Option.commutative_merge hR.plus).comm _ _
  · exact hR.plus_comm _ _

theorem empty_join : empty.join a = a := by
  apply Tally.ext
  · funext j
    exact Option.merge_none_left
  · exact hR.zero_plus a.constant

end Tally

/-! ### One expression more -/

variable {hR} {s : LinearSum κ} {d e : Expr κ} {es : List (Expr κ)}

theorem classOf_accrued {contribution : Option κ} {ts : List (Term κ)}
    (h : ts.map Term.coefficient = contribution.toList) (held : Option (Term κ)) :
    ((ts.foldl (fun held t => some (LinearSum.accrue held t)) held).map Term.coefficient).map
        hR.classOf
      = ((held.map Term.coefficient).map hR.classOf).merge hR.plus
        (contribution.map hR.classOf) := by
  cases contribution with
  | none =>
      obtain rfl := List.map_eq_nil_iff.mp h
      exact Option.merge_none_right.symm
  | some c =>
      obtain ⟨t, rfl, rfl⟩ := List.map_eq_singleton_iff.mp h
      cases held with
      | none => exact congrArg some (hR.classOf_eq_iff.mpr (hR.zero_add _))
      | some opened => rfl

theorem classOf_constants (v : κ) (e : Expr κ) :
    hR.classOf (e.constants.foldl (· + ·) v)
      = hR.plus (hR.classOf v) (hR.classOf e.raw.constant) := by
  cases e with
  | const w => rfl
  | var x => exact (hR.classOf_eq_iff.mpr (hR.add_zero v)).symm
  | term t => exact (hR.classOf_eq_iff.mpr (hR.add_zero v)).symm
  | sum r => rfl

variable (hR) in
theorem sum_add_tally (hs : LinearSum.Filed s.terms) (he : e.Filed) :
    ∃ r, s.add e = .ok r ∧ LinearSum.Filed r.terms
      ∧ hR.tally (.sum r) = (hR.tally (.sum s)).join (hR.tally e) := by
  refine ⟨_, LinearSum.add_eq_ok s he.inWords, hs.insertAll he.inWords, ?_⟩
  apply Tally.ext
  · funext j
    simp only [tally, Tally.join, Expr.raw, LinearSum.entries, Keyed.find?_map,
      LinearSum.find?_insertAll hs.ascending, classOf_accrued (he.contribution j)]
  · exact classOf_constants s.constant e

variable (hR) in
theorem toSum_tally (he : e.Filed) :
    ∃ s, e.toSum = .ok s ∧ LinearSum.Filed s.terms ∧ hR.tally (.sum s) = hR.tally e := by
  have hstart : hR.tally (.sum .zero) = .empty := rfl
  cases e with
  | const v => exact ⟨_, rfl, LinearSum.filed_nil, rfl⟩
  | var x =>
      obtain ⟨s, hs, hfiled, htally⟩ := sum_add_tally hR (s := .zero) LinearSum.filed_nil he
      exact ⟨s, hs, hfiled, by rw [htally, hstart, Tally.empty_join]⟩
  | term t =>
      obtain ⟨s, hs, hfiled, htally⟩ := sum_add_tally hR (s := .zero) LinearSum.filed_nil he
      exact ⟨s, hs, hfiled, by rw [htally, hstart, Tally.empty_join]⟩
  | sum s => exact ⟨s, rfl, he, rfl⟩

variable (hR) in
theorem add_tally (hd : d.Filed) (he : e.Filed) :
    ∃ r, d.add e = .ok r ∧ r.Filed ∧ hR.tally r = (hR.tally d).join (hR.tally e) := by
  unfold Expr.add
  split
  · exact ⟨_, rfl, trivial, rfl⟩
  · obtain ⟨r, hr, hfiled, htally⟩ := sum_add_tally hR hd he
    exact ⟨.sum r, by rw [hr]; rfl, hfiled, htally⟩
  · -- the right operand takes in the left one, whose contribution then comes second
    obtain ⟨r, hr, hfiled, htally⟩ := sum_add_tally hR he hd
    exact ⟨.sum r, by rw [hr]; rfl, hfiled, by rw [htally, Tally.join_comm]⟩
  · obtain ⟨s, hs, hfiled, htally⟩ := toSum_tally hR hd
    obtain ⟨r, hr, hfiled', htally'⟩ := sum_add_tally hR hfiled he
    exact ⟨.sum r, by rw [hs, Outcome.ok_bind, hr]; rfl, hfiled', by rw [htally', htally]⟩

/-! ### All of them -/

theorem foldlM_tally {α : Type} {step : α → Expr κ → Outcome α} (result : α → Expr κ)
    (hstep : ∀ a e, (result a).Filed → e.Filed → ∃ b, step a e = .ok b ∧ (result b).Filed
      ∧ hR.tally (result b) = (hR.tally (result a)).join (hR.tally e))
    (hes : ∀ e ∈ es, e.Filed) {a : α} (ha : (result a).Filed) :
    ∃ b, es.foldlM step a = .ok b ∧ (result b).Filed
      ∧ hR.tally (result b) = (es.map hR.tally).foldl Tally.join (hR.tally (result a)) := by
  induction es generalizing a with
  | nil => exact ⟨a, rfl, ha, rfl⟩
  | cons e es ih =>
      obtain ⟨he, hrest⟩ := List.forall_mem_cons.mp hes
      obtain ⟨a', ha', hfiled, htally⟩ := hstep a e ha he
      obtain ⟨b, hb, hresult⟩ := ih hrest hfiled
      rw [htally] at hresult
      exact ⟨b, by rw [List.foldlM_cons, ha', Outcome.ok_bind, hb], hresult⟩

/-- From an empty start the first expression is what there is. -/
theorem foldlM_tally_of_empty {α : Type} {step : α → Expr κ → Outcome α} (result : α → Expr κ)
    (hstep : ∀ a e, (result a).Filed → e.Filed → ∃ b, step a e = .ok b ∧ (result b).Filed
      ∧ hR.tally (result b) = (hR.tally (result a)).join (hR.tally e))
    (he : ∀ d ∈ e :: es, d.Filed) {a : α} (ha : (result a).Filed)
    (hempty : hR.tally (result a) = .empty) :
    ∃ b, (e :: es).foldlM step a = .ok b ∧ (result b).Filed
      ∧ hR.tally (result b) = (es.map hR.tally).foldl Tally.join (hR.tally e) := by
  obtain ⟨b, hb, hfiled, htally⟩ := foldlM_tally result hstep he ha
  rw [List.map_cons, List.foldl_cons, hempty, Tally.empty_join] at htally
  exact ⟨b, hb, hfiled, htally⟩

/-! ### Linear forms -/

theorem head_le_of_classes {p q : Nat × κ} {rest rest' : List (Nat × κ)}
    (h : (q :: rest').Pairwise (·.1 < ·.1))
    (hclass : (Keyed.find? p.1 (p :: rest)).map hR.classOf
      = (Keyed.find? p.1 (q :: rest')).map hR.classOf) : q.1 ≤ p.1 := by
  refine LinearSum.head_le_of_find? h fun hnone => ?_
  have hfirst : Keyed.find? p.1 (p :: rest) = some p.2 := if_pos rfl
  rw [hfirst, hnone] at hclass
  cases hclass

theorem entries_of_classes {entries entries' : List (Nat × κ)}
    (h : entries.Pairwise (·.1 < ·.1)) (h' : entries'.Pairwise (·.1 < ·.1))
    (hclass : ∀ j, (Keyed.find? j entries).map hR.classOf
      = (Keyed.find? j entries').map hR.classOf) :
    List.Forall₂ (fun p q => p.1 = q.1 ∧ R p.2 q.2) entries entries' := by
  induction entries generalizing entries' with
  | nil =>
      cases entries' with
      | nil => exact .nil
      | cons q rest' => simpa [Keyed.find?] using hclass q.1
  | cons p rest ih =>
      cases entries' with
      | nil => simpa [Keyed.find?] using hclass p.1
      | cons q rest' =>
          have hle := head_le_of_classes h' (hclass p.1)
          have hge := head_le_of_classes h (hclass q.1).symm
          obtain ⟨j, c⟩ := p
          obtain ⟨j', c'⟩ := q
          obtain rfl : j = j' := Nat.le_antisymm hge hle
          have hc := hclass j
          rw [Keyed.find?, Keyed.find?, if_pos rfl, if_pos rfl, Option.map_some, Option.map_some,
            Option.some.injEq] at hc
          obtain ⟨hbelow, hrest⟩ := List.pairwise_cons.mp h
          obtain ⟨hbelow', hrest'⟩ := List.pairwise_cons.mp h'
          refine .cons ⟨rfl, hR.classOf_eq_iff.mp hc⟩ (ih hrest hrest' fun k => ?_)
          -- nothing behind the first column is filed under it
          by_cases hk : j = k
          · subst hk
            rw [LinearSum.find?_of_lt hbelow, LinearSum.find?_of_lt hbelow']
          · have hclass' := hclass k
            rwa [Keyed.find?, Keyed.find?, if_neg hk, if_neg hk] at hclass'

theorem live_of_tally (hd : d.Filed) (he : e.Filed) (h : hR.tally d = hR.tally e) :
    LinearForm.EqualUpTo R ⟨d.live, d.raw.constant⟩ ⟨e.live, e.raw.constant⟩ := by
  have hentries := entries_of_classes hd.ascending he.ascending
    (congrFun (congrArg Tally.coefficient? h))
  refine ⟨List.rel_filter ?_ hentries, hR.classOf_eq_iff.mp (congrArg Tally.constant h)⟩
  rintro p q ⟨-, hsame⟩
  change (!(p.2 == 0)) = true ↔ (!(q.2 == 0)) = true
  rw [hR.zero_congr hsame]

end Scalar.CommutesUpTo

namespace Model

open Scalar.CommutesUpTo

variable {space : Space} {body : List Nat → Outcome (Expr κ)} {elements : List (List Nat)}
  {e : Expr κ} {es : List (Expr κ)}

/-- A sum over a space is the total of what the body yields, if it always yields something. -/
theorem sumOver_eq_total {m : Model κ} (helements : space.elements m.catalog = .ok elements)
    (hbody : List.Forall₂ (fun coords d => body coords = .ok d) elements es) :
    m.sumOver space body = Expr.total es := by
  rw [sumOver, helements, Outcome.ok_bind, Outcome.foldlM_of_forall₂ hbody]
  rfl

/-- The ways of adding up a list that is not empty: onto its first element, onto the number zero, as
a total, and as a sum over a space whose elements yield the list. -/
def waysOfAdding (m : Model κ) (space : Space) (body : List Nat → Outcome (Expr κ)) (e : Expr κ)
    (es : List (Expr κ)) : List (Outcome (Expr κ)) :=
  [es.foldlM Expr.add e, (e :: es).foldlM Expr.add (.const 0), Expr.total (e :: es),
    m.sumOver space body]

theorem ways_tally (hR : Scalar.CommutesUpTo R) (he : ∀ d ∈ e :: es, d.Filed) {m : Model κ}
    (helements : space.elements m.catalog = .ok elements)
    (hbody : List.Forall₂ (fun coords d => body coords = .ok d) elements (e :: es)) :
    ∀ way ∈ m.waysOfAdding space body e es, ∃ d, way = .ok d ∧ d.Filed
      ∧ hR.tally d = (es.map hR.tally).foldl Tally.join (hR.tally e) := by
  have htotal : ∃ d, Expr.total (e :: es) = .ok d ∧ d.Filed
      ∧ hR.tally d = (es.map hR.tally).foldl Tally.join (hR.tally e) := by
    obtain ⟨s, hs, hresult⟩ := foldlM_tally_of_empty Expr.sum
      (fun s d hs => sum_add_tally hR hs) he (a := .zero) LinearSum.filed_nil rfl
    exact ⟨.sum s, by rw [Expr.total, hs]; rfl, hresult⟩
  have hadd (a d : Expr κ) (ha : a.Filed) (hd : d.Filed) := add_tally hR ha hd
  obtain ⟨hfirst, hrest⟩ := List.forall_mem_cons.mp he
  simp only [waysOfAdding, List.forall_mem_cons, List.not_mem_nil, false_imp_iff, implies_true,
    and_true]
  refine ⟨?_, ?_, htotal, ?_⟩
  · exact foldlM_tally id hadd hrest hfirst
  · exact foldlM_tally_of_empty id hadd he (a := .const 0) trivial rfl
  · rw [sumOver_eq_total helements hbody]
    exact htotal

/-- However a list of built expressions is added up, the result is the same linear form: in the same
columns, with coefficients and a constant that differ at most as `R` allows. All that is asked of
addition is that two numbers may change places and that a zero in front goes unnoticed. Floats add
in this way when those are taken for the same that compare equal, or are both no numbers. -/
theorem ways_of_adding_agree :
    Scalar.CommutesUpTo (Scalar.Alike (κ := Float))
      ∧ ∀ {κ : Type} [Scalar κ] {R : κ → κ → Prop}, Scalar.CommutesUpTo R →
        ∀ (e : Expr κ) (es : List (Expr κ)), (∀ d ∈ e :: es, d.Built) →
        ∀ (m : Model κ) (space : Space) (body : List Nat → Outcome (Expr κ))
          (elements : List (List Nat)), space.elements m.catalog = .ok elements →
        List.Forall₂ (fun coords d => body coords = .ok d) elements (e :: es) →
        ∃ form, ∀ way ∈ m.waysOfAdding space body e es,
          ∃ d f, way = .ok d ∧ d.linearForm = .ok f ∧ f.EqualUpTo R form := by
  refine ⟨commutesUpTo_alike, ?_⟩
  intro κ _ R hR e es hbuilt m space body elements helements hbody
  have hfiled : ∀ d ∈ e :: es, d.Filed := fun d hd => (hbuilt d hd).filed
  have hways := ways_tally hR hfiled helements hbody
  obtain ⟨d₀, -, hd₀, htally₀⟩ := hways _ List.mem_cons_self
  refine ⟨⟨d₀.live, d₀.raw.constant⟩, fun way hway => ?_⟩
  obtain ⟨d, hd, hdfiled, htally⟩ := hways way hway
  exact ⟨d, _, hd, hdfiled.linearForm, live_of_tally hdfiled hd₀ (htally.trans htally₀.symm)⟩

/-- Half of one variable, the difference of two, and a number. -/
def mixedExprs : List (Expr Float) :=
  [.term ⟨⟨3, 2⟩, 0.5⟩, .sum ⟨[(0, ⟨⟨0, 0⟩, 0 + -1⟩), (5, ⟨⟨5, 0⟩, 0 + 1⟩)], 0⟩, .const 2]

theorem ways_of_adding_mixedExprs :
    (∀ d ∈ mixedExprs, d.Built)
      ∧ ∃ form, ∀ way ∈ (empty none).waysOfAdding [⟨"i", .range 0 (.fixed 2)⟩]
          (fun coords => .ok (mixedExprs.getD (coords.headD 0) (.const 0)))
          (.term ⟨⟨3, 2⟩, 0.5⟩) mixedExprs.tail,
        ∃ d f, way = .ok d ∧ d.linearForm = .ok f ∧ f.EqualUpTo Scalar.Alike form := by
  have hbuilt : ∀ d ∈ mixedExprs, d.Built := by
    simp only [mixedExprs, List.forall_mem_cons]
    refine ⟨⟨.leaf (.term ⟨⟨3, 2⟩, 0.5⟩), by decide, rfl⟩,
      ⟨.sub (.leaf (.var ⟨5, 0⟩)) (.leaf (.var ⟨0, 0⟩)), by decide, rfl⟩,
      ⟨.leaf (.const 2), by decide, rfl⟩, List.forall_mem_nil _⟩
  obtain ⟨hfloat, hways⟩ := ways_of_adding_agree
  exact ⟨hbuilt, hways hfloat _ mixedExprs.tail hbuilt (empty none) _ _ [[0], [1], [2]] rfl
    (.cons rfl (.cons rfl (.cons rfl .nil)))⟩

end Model

end LinearProgram
