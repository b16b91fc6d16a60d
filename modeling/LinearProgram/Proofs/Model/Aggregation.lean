import Mathlib.Algebra.Field.Rat
import LinearProgram.Proofs.Model.Accumulation
import LinearProgram.Proofs.Space.RowMajor

/-!
Sums over product spaces. A sum over a space fails for the first element whose expression fails, and
otherwise denotes the sum of what the elements denote. A sum over some dimensions of sums over the
others goes through the same elements in the same order, one block for each element of the outer
dimensions. Main statement: it therefore fails for the same element or has the same linear form, and
so has the sum over the dimensions in any other order.
-/

namespace LinearProgram

/-- A result with the given linear form. -/
def Outcome.HasForm (o : Outcome (Expr Rat)) (form : LinearForm Rat) : Prop :=
  ∃ e, o = .ok e ∧ e.linearForm = .ok form

theorem Outcome.hasForm_of_means {o : Outcome (Expr Rat)} {e : Expr Rat} {f : (Nat → Rat) → Rat}
    {form : LinearForm Rat} (ho : o = .ok e) (he : e.Means f) (hform : form.Canonical)
    (hvalue : ∀ x, form.valueAt x = f x) : o.HasForm form := by
  obtain ⟨form', hlinear, hcanonical, hvalue'⟩ := he.linearForm
  have hsame : form' = form := by
    apply hcanonical.unique hform
    intro x
    rw [hvalue', hvalue]
  exact ⟨e, ho, hsame ▸ hlinear⟩

theorem LinearForm.eq_zero_of_valueAt {form : LinearForm Rat} (h : form.Canonical)
    (hzero : ∀ x, form.valueAt x = 0) : form = ⟨[], 0⟩ := by
  have hnone : (⟨[], 0⟩ : LinearForm Rat).Canonical := ⟨.nil, List.forall_mem_nil _⟩
  refine h.unique hnone fun x => ?_
  rw [hzero, valueAt, dot, add_zero]

namespace Model

variable {m : Model Rat} {s t : Space} {body : List Nat → Outcome (Expr Rat)}
  {elements : List (List Nat)} {es : List (Expr Rat)} {x : Nat → Rat}

/-- The value at a point of what a body yields for an element. -/
def bodyValue (body : List Nat → Outcome (Expr Rat)) (x : Nat → Rat) (coords : List Nat) : Rat :=
  (body coords).toOption.elim 0 fun e => e.raw.valueAt x

theorem bodyValue_of_ok {coords : List Nat} {e : Expr Rat} (h : body coords = .ok e) :
    bodyValue body x coords = e.raw.valueAt x := by
  rw [bodyValue, h]
  rfl

theorem map_bodyValue (h : List.Forall₂ (fun coords e => body coords = .ok e) elements es) :
    elements.map (bodyValue body x) = es.map fun e => e.raw.valueAt x := by
  induction h with
  | nil => rfl
  | cons he _ ih => rw [List.map_cons, List.map_cons, bodyValue_of_ok he, ih]

/-! ### One space -/

theorem exists_sumOver (helements : s.elements m.catalog = .ok elements)
    (hbody : ∀ coords ∈ elements, ∀ e, body coords = .ok e → e.Filed)
    (hall : ∀ coords ∈ elements, ∃ e, body coords = .ok e) :
    ∃ e, m.sumOver s body = .ok e
      ∧ e.Means fun x => (elements.map (bodyValue body x)).sum := by
  obtain ⟨es, hes⟩ := Outcome.exists_forall₂_iff.mpr hall
  have hmeans : List.Forall₂ Expr.Means es (es.map fun e => e.raw.valueAt) := by
    rw [List.forall₂_map_right_iff, List.forall₂_same]
    intro e he
    obtain ⟨coords, hmem, hcoords⟩ := Outcome.exists_of_mem_mapM (Outcome.mapM_eq_ok_iff.mpr hes) he
    exact ⟨hbody coords hmem e hcoords, fun _ => rfl⟩
  obtain ⟨e, he, htotal⟩ := Expr.total_means hmeans
  refine ⟨e, by rw [sumOver_eq_total helements hes, he], htotal.congr fun x => ?_⟩
  rw [map_bodyValue hes, List.foldr_map, List.sum_eq_foldr, List.foldr_map]

theorem sumOver_eq_error {coords : List Nat} {failure : Failure}
    (helements : s.elements m.catalog = .ok elements)
    (hbody : ∀ coords ∈ elements, ∀ e, body coords = .ok e → e.Filed)
    (h : Outcome.FailsFirst body elements coords failure) : m.sumOver s body = .error failure := by
  have hadd : ∀ (r : LinearSum Rat), ∀ i ∈ elements, ∀ e, body i = .ok e →
      ∃ r', r.add e = .ok r' := fun r i hi e he =>
    ⟨_, LinearSum.add_eq_ok r (hbody i hi e he).inWords⟩
  rw [sumOver, helements, Outcome.ok_bind, h.foldlM hadd, Outcome.error_bind]

/-- The sum has what the elements denote together for its function, or fails as the first of them
does that fails. -/
theorem sumOver_cases (helements : s.elements m.catalog = .ok elements)
    (hbody : ∀ coords ∈ elements, ∀ e, body coords = .ok e → e.Filed) :
    (∃ e, m.sumOver s body = .ok e ∧ (∀ coords ∈ elements, ∃ d, body coords = .ok d)
        ∧ e.Means fun x => (elements.map (bodyValue body x)).sum)
      ∨ ∃ coords failure, m.sumOver s body = .error failure
        ∧ Outcome.FailsFirst body elements coords failure := by
  rcases Outcome.forall_or_failsFirst body elements with hall | ⟨coords, failure, hfirst⟩
  · obtain ⟨e, he, hmeans⟩ := exists_sumOver helements hbody hall
    exact .inl ⟨e, he, hall, hmeans⟩
  · exact .inr ⟨coords, failure, sumOver_eq_error helements hbody hfirst, hfirst⟩

theorem sumOver_eq_ok {e : Expr Rat} (helements : s.elements m.catalog = .ok elements)
    (hbody : ∀ coords ∈ elements, ∀ e, body coords = .ok e → e.Filed)
    (h : m.sumOver s body = .ok e) :
    (∀ coords ∈ elements, ∃ d, body coords = .ok d)
      ∧ e.Means fun x => (elements.map (bodyValue body x)).sum := by
  rcases sumOver_cases helements hbody with ⟨e', he', hresult⟩ | ⟨_, _, hfail, -⟩
  · cases h.symm.trans he'
    exact hresult
  · cases h.symm.trans hfail

theorem failsFirst_of_sumOver {failure : Failure} (helements : s.elements m.catalog = .ok elements)
    (hbody : ∀ coords ∈ elements, ∀ e, body coords = .ok e → e.Filed)
    (h : m.sumOver s body = .error failure) :
    ∃ coords, Outcome.FailsFirst body elements coords failure := by
  rcases sumOver_cases helements hbody with ⟨e, he, -⟩ | ⟨coords, failure', hfail, hfirst⟩
  · cases h.symm.trans he
  · cases h.symm.trans hfail
    exact ⟨coords, hfirst⟩

/-! ### Two spaces -/

theorem sum_map_flatMap {α β : Type} (block : α → List β) (value : β → Rat) (as : List α) :
    ((as.flatMap block).map value).sum = (as.map fun a => ((block a).map value).sum).sum := by
  induction as with
  | nil => rfl
  | cons a as ih =>
      rw [List.flatMap_cons, List.map_append, List.sum_append, ih, List.map_cons, List.sum_cons]

/-- The elements of two spaces together, in blocks. -/
def blocks (elements inner : List (List Nat)) : List (List Nat) :=
  elements.flatMap fun i => inner.map (i ++ ·)

theorem append_mem_blocks {inner : List (List Nat)} {i k : List Nat} (hi : i ∈ elements)
    (hk : k ∈ inner) : i ++ k ∈ blocks elements inner :=
  List.mem_flatMap.mpr ⟨i, hi, List.mem_map_of_mem hk⟩

/-- A sum of sums goes through the blocks one after another. -/
theorem nested_cases {inner : List (List Nat)} (hs : s.elements m.catalog = .ok elements)
    (ht : t.elements m.catalog = .ok inner)
    (hbody : ∀ coords ∈ blocks elements inner, ∀ e, body coords = .ok e → e.Filed) :
    (∃ e, (m.sumOver s fun i => m.sumOver t fun k => body (i ++ k)) = .ok e
        ∧ (∀ coords ∈ blocks elements inner, ∃ d, body coords = .ok d)
        ∧ e.Means fun x => ((blocks elements inner).map (bodyValue body x)).sum)
      ∨ ∃ coords failure, (m.sumOver s fun i => m.sumOver t fun k => body (i ++ k)) = .error failure
        ∧ Outcome.FailsFirst body (blocks elements inner) coords failure := by
  have hblock : ∀ i ∈ elements, ∀ k ∈ inner, ∀ e, body (i ++ k) = .ok e → e.Filed :=
    fun i hi k hk => hbody (i ++ k) (append_mem_blocks hi hk)
  have hinner : ∀ i ∈ elements, ∀ e, (m.sumOver t fun k => body (i ++ k)) = .ok e → e.Filed :=
    fun i hi e he => (sumOver_eq_ok ht (hblock i hi) he).2.filed
  rcases sumOver_cases hs hinner with ⟨e, he, hall, hmeans⟩ | ⟨i, failure, hfail, hfirst⟩
  · refine .inl ⟨e, he, ?_, hmeans.congr fun x => ?_⟩
    · intro coords hcoords
      obtain ⟨i, hi, hcoords⟩ := List.mem_flatMap.mp hcoords
      obtain ⟨k, hk, rfl⟩ := List.mem_map.mp hcoords
      obtain ⟨d, hd⟩ := hall i hi
      exact (sumOver_eq_ok ht (hblock i hi) hd).1 k hk
    · rw [blocks, sum_map_flatMap]
      refine congrArg List.sum (List.map_congr_left fun i hi => ?_)
      obtain ⟨d, hd⟩ := hall i hi
      rw [bodyValue_of_ok hd, (sumOver_eq_ok ht (hblock i hi) hd).2.value x, List.map_map]
      rfl
  · obtain ⟨k, hk⟩ := failsFirst_of_sumOver ht (hblock i hfirst.mem) hfirst.error
    refine .inr ⟨i ++ k, failure, hfail, ?_⟩
    obtain ⟨before, after, rfl, hbefore, -⟩ := hfirst
    refine Outcome.FailsFirst.of_blocks hk.map fun j hj coords hcoords => ?_
    -- an inner sum that has succeeded has found no failure in its block
    obtain ⟨d, hd⟩ := hbefore j hj
    obtain ⟨k', hk', rfl⟩ := List.mem_map.mp hcoords
    exact (sumOver_eq_ok ht (hblock j (List.mem_append_left _ hj)) hd).1 k' hk'

/-! ### Any order of the dimensions -/

theorem permute_hasForm {σ : Equiv.Perm (Fin s.length)} {elements' : List (List Nat)}
    {form : LinearForm Rat} (h : s.Enumerates m.catalog elements)
    (helements' : (s.permute σ).elements m.catalog = .ok elements')
    (h' : (s.permute σ).Enumerates m.catalog elements')
    (hbody : ∀ coords ∈ elements, ∀ e, body coords = .ok e → e.Filed)
    (hall : ∀ coords ∈ elements, ∃ d, body coords = .ok d) (hform : form.Canonical)
    (hvalue : ∀ x, form.valueAt x = (elements.map (bodyValue body x)).sum) :
    (m.sumOver (s.permute σ) fun coords =>
      body (Space.permuteCoords σ.symm coords)).HasForm form := by
  have hperm := Space.perm_of_permute h h'
  have hmem : ∀ coords ∈ elements', Space.permuteCoords σ.symm coords ∈ elements := fun _ hcoords =>
    hperm.mem_iff.mp (List.mem_map_of_mem hcoords)
  obtain ⟨e, he, hmeans⟩ := exists_sumOver helements' (fun _ hcoords => hbody _ (hmem _ hcoords))
    (fun _ hcoords => hall _ (hmem _ hcoords))
  refine Outcome.hasForm_of_means he hmeans hform fun x => ?_
  rw [hvalue, ← (hperm.map (bodyValue body x)).sum_eq, List.map_map]
  rfl

/-- For any sizes that are known, a sum over two spaces together and a sum over the first of sums
over the second agree. If the body fails for some element they fail alike, and so they do as the
first such element does. Otherwise they have one linear form, which is in canonical form and denotes
the sum of what the body yields for the elements, each taken once; it is the form of the sum over
the dimensions in any other order, and zero if there is an empty dimension. -/
theorem sumOver_append_eq_nested (m : Model Rat) (s t : Space)
    (body : List Nat → Outcome (Expr Rat))
    (hsizes : ∀ d ∈ s ++ t, ∃ n, m.catalog.size d = .ok n)
    (hbody : ∀ coords, (s ++ t).InRange m.catalog coords → ∀ e, body coords = .ok e → e.Built) :
    let joint := m.sumOver (s ++ t) body
    let nested := m.sumOver s fun i => m.sumOver t fun k => body (i ++ k)
    ((∃ coords, (s ++ t).InRange m.catalog coords ∧ ∃ failure, body coords = .error failure) →
      ∃ coords failure, (s ++ t).FirstFailure m.catalog body coords failure
        ∧ joint = .error failure ∧ nested = .error failure)
    ∧ ((∀ coords, (s ++ t).InRange m.catalog coords → ∃ e, body coords = .ok e) →
      ∃ (form : LinearForm Rat) (elements : List (List Nat)) (es : List (Expr Rat)),
        joint.HasForm form ∧ nested.HasForm form ∧ form.Canonical
        ∧ (s ++ t).Enumerates m.catalog elements
        ∧ List.Forall₂ (fun coords e => body coords = .ok e) elements es
        ∧ (∀ x, form.valueAt x = (es.map fun e => e.raw.valueAt x).sum)
        ∧ (∀ σ : Equiv.Perm (Fin (s ++ t).length),
          (m.sumOver ((s ++ t).permute σ) fun coords =>
            body (Space.permuteCoords σ.symm coords)).HasForm form)
        ∧ ((∃ d ∈ s ++ t, m.catalog.size d = .ok 0) → form = ⟨[], 0⟩)) := by
  have hs : ∀ d ∈ s, ∃ n, m.catalog.size d = .ok n := fun d hd =>
    hsizes d (List.mem_append_left t hd)
  have ht : ∀ d ∈ t, ∃ n, m.catalog.size d = .ok n := fun d hd =>
    hsizes d (List.mem_append_right s hd)
  obtain ⟨outer, houter, -⟩ := Space.exists_enumeration hs
  obtain ⟨inner, hinner, -⟩ := Space.exists_enumeration ht
  obtain ⟨elements, helements, henumerates⟩ := Space.exists_enumeration hsizes
  obtain rfl : elements = blocks outer inner := by
    cases helements.symm.trans (Space.elements_append houter hinner)
    rfl
  have hfiled : ∀ coords ∈ blocks outer inner, ∀ e, body coords = .ok e → e.Filed :=
    fun coords hcoords e he => (hbody coords ((henumerates.mem_iff coords).mp hcoords) e he).filed
  rcases nested_cases houter hinner hfiled with
    ⟨e, he, hall, hmeans⟩ | ⟨coords, failure, hfail, hfirst⟩
  · refine ⟨fun ⟨coords, hrange, failure, hfailure⟩ => ?_, fun _ => ?_⟩
    · obtain ⟨d, hd⟩ := hall coords ((henumerates.mem_iff coords).mpr hrange)
      cases hd.symm.trans hfailure
    obtain ⟨form, hform, hcanonical, hvalue⟩ := hmeans.linearForm
    obtain ⟨e', he', hmeans'⟩ := exists_sumOver helements hfiled hall
    obtain ⟨es, hes⟩ := Outcome.exists_forall₂_iff.mpr hall
    refine ⟨form, blocks outer inner, es, Outcome.hasForm_of_means he' hmeans' hcanonical hvalue,
      ⟨e, he, hform⟩, hcanonical, henumerates, hes, fun x => ?_, fun σ => ?_, ?_⟩
    · rw [hvalue, map_bodyValue hes]
    · obtain ⟨elements', helements', henumerates'⟩ :=
        Space.exists_enumeration fun d hd => hsizes d (Space.mem_of_mem_permute (σ := σ) hd)
      exact permute_hasForm henumerates helements' henumerates' hfiled hall hcanonical hvalue
    · rintro ⟨d, hd, hempty⟩
      refine LinearForm.eq_zero_of_valueAt hcanonical fun x => ?_
      rw [hvalue, henumerates.eq_nil_of_empty hd hempty]
      rfl
  · refine ⟨fun _ => ⟨coords, failure, henumerates.firstFailure hfirst,
      sumOver_eq_error helements hfiled hfirst, hfail⟩, fun hall => ?_⟩
    obtain ⟨d, hd⟩ := hall coords ((henumerates.mem_iff coords).mp hfirst.mem)
    cases hd.symm.trans hfirst.error

/-- For an element, the variable of its first coordinate; none for elements of the given column. -/
def exceptColumn (hole : Nat) (coords : List Nat) : Outcome (Expr Rat) :=
  if coords.getLastD 0 = hole then .refuse .divisionByZero
  else .ok (.var ⟨0, coords.headD 0 % 2⟩)

/-- Two by two elements, none of them in column two, and half of them in column one. -/
theorem sumOver_append_of_square :
    let s : Space := [⟨"i", .range 0 (.fixed 1)⟩]
    let t : Space := [⟨"k", .range 0 (.fixed 1)⟩]
    let m : Model Rat := empty none
    (∃ form, (m.sumOver (s ++ t) (exceptColumn 2)).HasForm form
        ∧ (m.sumOver s fun i => m.sumOver t fun k => exceptColumn 2 (i ++ k)).HasForm form
        ∧ ∀ σ, (m.sumOver ((s ++ t).permute σ) fun coords =>
          exceptColumn 2 (Space.permuteCoords σ.symm coords)).HasForm form)
      ∧ (m.sumOver s fun i => m.sumOver t fun k => exceptColumn 1 (i ++ k))
        = .refuse .divisionByZero := by
  intro s t m
  have hsizes : ∀ d ∈ s ++ t, ∃ n, m.catalog.size d = .ok n := by
    refine List.forall_mem_cons.mpr ⟨⟨2, rfl⟩, List.forall_mem_singleton.mpr ⟨2, rfl⟩⟩
  have hbuilt : ∀ hole coords e, exceptColumn hole coords = .ok e → e.Built := by
    intro hole coords e he
    unfold exceptColumn at he
    split at he
    · cases he
    cases he
    have hwords : (Expr.var ⟨0, coords.headD 0 % 2⟩ : Expr Rat).InWords := by
      have hlt : coords.headD 0 % 2 < 2 := Nat.mod_lt _ (by decide)
      refine List.forall_mem_singleton.mpr ?_
      change 0 + coords.headD 0 % 2 < Word.limit
      have : 2 < Word.limit := by decide
      omega
    exact ⟨.leaf (.var ⟨0, coords.headD 0 % 2⟩),
      List.forall_mem_singleton.mpr ⟨nofun, hwords⟩, rfl⟩
  obtain ⟨-, hagree⟩ := sumOver_append_eq_nested m s t (exceptColumn 2) hsizes fun _ _ => hbuilt 2 _
  obtain ⟨hfail, -⟩ := sumOver_append_eq_nested m s t (exceptColumn 1) hsizes fun _ _ => hbuilt 1 _
  constructor
  · obtain ⟨form, -, -, hjoint, hnested, -, -, -, -, hpermuted, -⟩ := hagree fun coords hrange => by
      obtain ⟨i, k, rfl, hk⟩ : ∃ i k, coords = [i, k] ∧ k < 2 := by
        rcases hrange with _ | ⟨-, _ | ⟨⟨n, hn, hlt⟩, _ | _⟩⟩
        cases hn
        exact ⟨_, _, rfl, hlt⟩
      have hcolumn : [i, k].getLastD 0 ≠ 2 := hk.ne
      exact ⟨_, if_neg hcolumn⟩
    exact ⟨form, hjoint, hnested, hpermuted⟩
  · obtain ⟨coords, failure, -, hjoint, hnested⟩ := hfail
      ⟨[0, 1], .cons ⟨2, rfl, by decide⟩ (.cons ⟨2, rfl, by decide⟩ .nil), _, rfl⟩
    have hsame : m.sumOver (s ++ t) (exceptColumn 1) = .refuse .divisionByZero := rfl
    cases hjoint.symm.trans hsame
    exact hnested

end Model

end LinearProgram
