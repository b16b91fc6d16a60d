import LinearProgram.Expr.Algebra
import LinearProgram.Proofs.Expr.Filed

/-!
Arithmetic on expressions in good order. Whatever forms the operands have, the result is in good
order again and its values are those of the operands, added, subtracted, multiplied or divided.
-/

namespace LinearProgram

variable {κ : Type}

/-! ### Filing terms -/

namespace LinearSum

variable [Scalar κ] {terms : List (Nat × Term κ)} {j : Nat} {x : Variable} {c : κ}

theorem forall_insert {P : Nat → Variable → Prop} (hx : P j x)
    (h : ∀ p ∈ terms, P p.1 p.2.ref) : ∀ p ∈ insert j x c terms, P p.1 p.2.ref := by
  induction terms with
  | nil => exact List.forall_mem_singleton.mpr hx
  | cons q rest ih =>
      obtain ⟨hq, hrest⟩ := List.forall_mem_cons.mp h
      rw [insert]
      split
      · exact List.forall_mem_cons.mpr ⟨hx, h⟩
      split
      · exact List.forall_mem_cons.mpr ⟨hq, hrest⟩
      · exact List.forall_mem_cons.mpr ⟨hq, ih hrest⟩

theorem ascending_insert (h : terms.Pairwise (·.1 < ·.1)) :
    (insert j x c terms).Pairwise (·.1 < ·.1) := by
  induction terms with
  | nil => exact List.pairwise_singleton _ _
  | cons q rest ih =>
      obtain ⟨hfirst, hrest⟩ := List.pairwise_cons.mp h
      rw [insert]
      split
      · rename_i hlt
        refine List.pairwise_cons.mpr ⟨?_, h⟩
        exact List.forall_mem_cons.mpr ⟨hlt, fun p hp => hlt.trans (hfirst p hp)⟩
      split
      · exact List.pairwise_cons.mpr ⟨hfirst, hrest⟩
      · have hbehind : q.1 < j := by omega
        exact List.pairwise_cons.mpr
          ⟨forall_insert (P := fun k _ => q.1 < k) hbehind hfirst, ih hrest⟩

theorem Filed.insert (h : Filed terms) (hx : x.column = .ok j) : Filed (insert j x c terms) :=
  ⟨forall_insert (P := fun k y => y.column = .ok k) hx h.column, ascending_insert h.ascending⟩

theorem insert_of_last (h : ∀ p ∈ terms, p.1 < j) :
    insert j x c terms = terms ++ [(j, ⟨x, 0 + c⟩)] := by
  induction terms with
  | nil => rfl
  | cons q rest ih =>
      obtain ⟨hq, hrest⟩ := List.forall_mem_cons.mp h
      rw [insert, if_neg (by omega), if_neg (by omega), ih hrest]
      rfl

/-- Terms that arrive in the order of their columns are filed one behind the other. -/
theorem foldlM_add_ascending {α : Type} {as : List α} {body : α → Outcome (Expr κ)}
    {ref : α → Variable} {column : α → Nat} {weight : α → κ}
    (hbody : ∀ a ∈ as, body a = .ok (.term ⟨ref a, weight a⟩))
    (hcolumn : ∀ a ∈ as, (ref a).column = .ok (column a))
    (hascending : as.Pairwise (column · < column ·)) {s : LinearSum κ}
    (hlast : ∀ p ∈ s.terms, ∀ a ∈ as, p.1 < column a) :
    as.foldlM (fun s a => do s.add (← body a)) s
      = .ok { s with
          terms := s.terms ++ as.map fun a => (column a, ⟨ref a, 0 + weight a⟩) } := by
  induction as generalizing s with
  | nil => simp
  | cons a as ih =>
      obtain ⟨hbody, hbodies⟩ := List.forall_mem_cons.mp hbody
      obtain ⟨hcolumn, hcolumns⟩ := List.forall_mem_cons.mp hcolumn
      obtain ⟨hfirst, hrest⟩ := List.pairwise_cons.mp hascending
      have hstep : s.add (.term ⟨ref a, weight a⟩)
          = .ok { s with terms := s.terms ++ [(column a, ⟨ref a, 0 + weight a⟩)] } := by
        have hbehind : ∀ p ∈ s.terms, p.1 < column a := fun p hp => hlast p hp a List.mem_cons_self
        rw [add, collect, hcolumn, Outcome.ok_bind, insert_of_last hbehind]
        rfl
      rw [List.foldlM_cons, hbody, Outcome.ok_bind, hstep, Outcome.ok_bind,
        ih hbodies hcolumns hrest]
      · simp
      · intro p hp b hb
        rcases List.mem_append.mp hp with hp | hp
        · exact hlast p hp b (List.mem_cons_of_mem a hb)
        · cases List.mem_singleton.mp hp
          exact hfirst b hb

theorem dot_insert (point : Nat → Rat) (j : Nat) (x : Variable) (c : Rat)
    (terms : List (Nat × Term Rat)) :
    LinearForm.dot point (entries (insert j x c terms))
      = LinearForm.dot point (entries terms) + c * point j := by
  induction terms with
  | nil =>
      simp only [insert, entries, List.map_cons, List.map_nil, LinearForm.dot]
      ring
  | cons q rest ih =>
      rw [insert]
      split
      · simp only [dot_entries_cons]
        ring
      split
      · rename_i hsame
        simp only [dot_entries_cons, hsame]
        ring
      · simp only [dot_entries_cons, ih]
        ring

end LinearSum

/-! ### Arithmetic -/

namespace LinearSum

variable {s : LinearSum Rat} {f g : (Nat → Rat) → Rat}

theorem means_zero : (Expr.sum zero).Means fun _ => 0 :=
  ⟨⟨by simp [zero, ofConstant], .nil⟩, fun _ => add_zero 0⟩

theorem means_addConstant (h : (Expr.sum s).Means f) (v : Rat) :
    (Expr.sum { s with constant := s.constant + v }).Means fun x => f x + v := by
  refine ⟨h.filed, fun x => ?_⟩
  rw [← h.value x]
  simp only [Expr.raw, LinearForm.valueAt]
  ring

theorem collect_means (h : (Expr.sum s).Means f) {x : Variable} {j : Nat} (c : Rat)
    (hx : x.column = .ok j) :
    ∃ s', s.collect x c = .ok s' ∧ (Expr.sum s').Means fun p => f p + c * p j := by
  refine ⟨{ s with terms := LinearSum.insert j x c s.terms }, ?_, ?_, fun p => ?_⟩
  · rw [collect, hx]
    rfl
  · exact Filed.insert h.filed hx
  · rw [← h.value p]
    simp only [Expr.raw, LinearForm.valueAt, dot_insert]
    ring

theorem collectAll_means (h : (Expr.sum s).Means f) {terms : List (Nat × Term Rat)}
    (hterms : ∀ p ∈ terms, p.2.ref.column = .ok p.1) :
    ∃ s', terms.foldlM (fun s (_, t) => s.collect t.ref t.coefficient) s = .ok s'
      ∧ (Expr.sum s').Means fun x => f x + LinearForm.dot x (entries terms) := by
  induction terms generalizing s f with
  | nil => exact ⟨s, rfl, h.congr fun x => (add_zero (f x)).symm⟩
  | cons p rest ih =>
      obtain ⟨hp, hrest⟩ := List.forall_mem_cons.mp hterms
      obtain ⟨s₁, hs₁, hmeans₁⟩ := collect_means h p.2.coefficient hp
      obtain ⟨s₂, hs₂, hmeans₂⟩ := ih hmeans₁ hrest
      refine ⟨s₂, ?_, hmeans₂.congr fun x => ?_⟩
      · rw [List.foldlM_cons]
        exact Outcome.bind_eq_ok_iff.mpr ⟨s₁, hs₁, hs₂⟩
      · rw [dot_entries_cons]
        ring

theorem add_means (h : (Expr.sum s).Means f) {e : Expr Rat} (he : e.Means g) :
    ∃ s', s.add e = .ok s' ∧ (Expr.sum s').Means fun x => f x + g x := by
  cases e with
  | const v =>
      refine ⟨_, rfl, (means_addConstant h v).congr fun x => ?_⟩
      rw [← he.value x, Expr.raw, LinearForm.valueAt, LinearForm.dot, add_zero]
  | var x =>
      obtain ⟨s', hs', hmeans⟩ :=
        collect_means h 1 (Variable.column_eq_ok_iff.mpr ⟨he.filed, rfl⟩)
      refine ⟨s', hs', hmeans.congr fun p => ?_⟩
      rw [← he.value p]
      simp only [Expr.raw, LinearForm.valueAt, LinearForm.dot]
      ring
  | term t =>
      obtain ⟨s', hs', hmeans⟩ :=
        collect_means h t.coefficient (Variable.column_eq_ok_iff.mpr ⟨he.filed, rfl⟩)
      refine ⟨s', hs', hmeans.congr fun p => ?_⟩
      rw [← he.value p]
      simp only [Expr.raw, LinearForm.valueAt, LinearForm.dot]
      ring
  | sum r =>
      obtain ⟨s', hs', hmeans⟩ := collectAll_means h he.filed.column
      refine ⟨_, ?_, (means_addConstant hmeans r.constant).congr fun x => ?_⟩
      · rw [add, hs']
        rfl
      · rw [← he.value x, Expr.raw, LinearForm.valueAt]
        ring

/-- To subtract is to add the negation. -/
theorem subtract_eq_add_neg (s : LinearSum Rat) (e : Expr Rat) : s.subtract e = s.add e.neg := by
  cases e with
  | const v =>
      have hconstant : s.constant - v = s.constant + -1 * v := by ring
      rw [subtract, hconstant]
      rfl
  | var x => rfl
  | term t =>
      have hcoefficient : -t.coefficient = -1 * t.coefficient := by ring
      rw [subtract, hcoefficient]
      rfl
  | sum r =>
      rw [subtract, Expr.neg, Expr.scale, add, scale, List.foldlM_map]
      simp only [sub_eq_add_neg, mul_neg_one]

end LinearSum

namespace Expr

variable {a b : Expr Rat} {f g : (Nat → Rat) → Rat}

theorem Means.const_value {v : Rat} (h : (const v).Means f) (x : Nat → Rat) : f x = v := by
  rw [← h.value x, raw, LinearForm.valueAt, LinearForm.dot, add_zero]

theorem means_const (v : Rat) : (const v).Means fun _ => v := ⟨trivial, fun _ => add_zero v⟩

theorem Means.scale (h : a.Means f) (k : Rat) : (a.scale k).Means fun x => k * f x := by
  cases a with
  | const v =>
      refine (means_const (k * v)).congr fun x => ?_
      rw [h.const_value x]
  | var x =>
      refine ⟨h.filed, fun p => ?_⟩
      rw [← h.value p]
      simp only [Expr.scale, raw, LinearForm.valueAt, LinearForm.dot]
      ring
  | term t =>
      refine ⟨h.filed, fun p => ?_⟩
      rw [← h.value p]
      simp only [Expr.scale, raw, LinearForm.valueAt, LinearForm.dot]
      ring
  | sum s =>
      have hentries : LinearSum.entries (s.scale k).terms
          = (LinearSum.entries s.terms).map fun p => (p.1, p.2 * k) := by
        simp [LinearSum.entries, LinearSum.scale]
      have hfiled : LinearSum.Filed s.terms := h.filed
      refine ⟨⟨?_, ?_⟩, fun x => ?_⟩
      · exact List.forall_mem_map.mpr hfiled.column
      · exact List.pairwise_map.mpr hfiled.ascending
      · rw [← h.value x, Expr.scale, raw, raw, LinearForm.valueAt, hentries,
          LinearForm.dot_map_mul, LinearForm.valueAt, LinearSum.scale]
        ring

theorem Means.neg (h : a.Means f) : a.neg.Means fun x => -f x :=
  (h.scale (-1)).congr fun x => neg_one_mul (f x)

theorem Means.toSum (h : a.Means f) : ∃ s, a.toSum = .ok s ∧ (sum s).Means f := by
  cases a with
  | const v =>
      refine ⟨_, rfl, ⟨?_, .nil⟩, h.value⟩
      simp [LinearSum.ofConstant]
  | var x =>
      obtain ⟨s, hs, hmeans⟩ := LinearSum.add_means LinearSum.means_zero h
      exact ⟨s, hs, hmeans.congr fun x => zero_add (f x)⟩
  | term t =>
      obtain ⟨s, hs, hmeans⟩ := LinearSum.add_means LinearSum.means_zero h
      exact ⟨s, hs, hmeans.congr fun x => zero_add (f x)⟩
  | sum s => exact ⟨s, rfl, h⟩

theorem Means.add (ha : a.Means f) (hb : b.Means g) :
    ∃ e, a.add b = .ok e ∧ e.Means fun x => f x + g x := by
  unfold Expr.add
  split
  · rename_i v w
    refine ⟨_, rfl, (means_const (v + w)).congr fun x => ?_⟩
    rw [ha.const_value x, hb.const_value x]
  · obtain ⟨s, hs, hmeans⟩ := LinearSum.add_means ha hb
    exact ⟨sum s, by rw [hs]; rfl, hmeans⟩
  · -- only the right operand is a sum, and takes the left one in
    obtain ⟨s, hs, hmeans⟩ := LinearSum.add_means hb ha
    exact ⟨sum s, by rw [hs]; rfl, hmeans.congr fun x => add_comm (g x) (f x)⟩
  · obtain ⟨s, hs, hmeans⟩ := ha.toSum
    obtain ⟨s', hs', hmeans'⟩ := LinearSum.add_means hmeans hb
    exact ⟨sum s', by rw [hs, Outcome.ok_bind, hs']; rfl, hmeans'⟩

theorem Means.sub (ha : a.Means f) (hb : b.Means g) :
    ∃ e, a.sub b = .ok e ∧ e.Means fun x => f x - g x := by
  unfold Expr.sub
  split
  · rename_i v w
    refine ⟨_, rfl, (means_const (v - w)).congr fun x => ?_⟩
    rw [ha.const_value x, hb.const_value x]
  · obtain ⟨s, hs, hmeans⟩ := ha.toSum
    obtain ⟨s', hs', hmeans'⟩ := LinearSum.add_means hmeans hb.neg
    refine ⟨sum s', ?_, hmeans'.congr fun x => (sub_eq_add_neg (f x) (g x)).symm⟩
    rw [hs, Outcome.ok_bind, LinearSum.subtract_eq_add_neg, hs']
    rfl

theorem Means.mul (ha : a.Means f) (hb : b.Means g) {e : Expr Rat} (h : a.mul b = .ok e) :
    e.Means fun x => f x * g x := by
  unfold Expr.mul at h
  split at h
  · rename_i v w
    cases h
    refine (means_const (v * w)).congr fun x => ?_
    rw [ha.const_value x, hb.const_value x]
  · cases h
    refine (hb.scale _).congr fun x => ?_
    rw [ha.const_value x]
  · cases h
    refine (ha.scale _).congr fun x => ?_
    rw [hb.const_value x, mul_comm]
  · cases h

theorem Means.div (ha : a.Means f) (hb : b.Means g) {e : Expr Rat} (h : a.div b = .ok e) :
    e.Means fun x => f x / g x := by
  unfold Expr.div at h
  split at h
  · split at h
    · cases h
    · cases h
      refine (ha.scale _).congr fun x => ?_
      rw [hb.const_value x]
      ring
  · cases h

theorem foldlM_add_means {es : List (Expr Rat)} {gs : List ((Nat → Rat) → Rat)}
    (h : List.Forall₂ Means es gs) {s : LinearSum Rat} (hs : (sum s).Means f) :
    ∃ s', es.foldlM LinearSum.add s = .ok s'
      ∧ (sum s').Means fun x => f x + gs.foldr (fun g v => g x + v) 0 := by
  induction h generalizing s f with
  | nil => exact ⟨s, rfl, hs.congr fun x => (add_zero (f x)).symm⟩
  | cons he _ ih =>
      obtain ⟨s₁, hs₁, hmeans₁⟩ := LinearSum.add_means hs he
      obtain ⟨s₂, hs₂, hmeans₂⟩ := ih hmeans₁
      refine ⟨s₂, ?_, hmeans₂.congr fun x => ?_⟩
      · rw [List.foldlM_cons, hs₁, Outcome.ok_bind, hs₂]
      · rw [List.foldr_cons, add_assoc]

theorem total_means {es : List (Expr Rat)} {gs : List ((Nat → Rat) → Rat)}
    (h : List.Forall₂ Means es gs) :
    ∃ e, total es = .ok e ∧ e.Means fun x => gs.foldr (fun g v => g x + v) 0 := by
  obtain ⟨s, hs, hmeans⟩ := foldlM_add_means h LinearSum.means_zero
  refine ⟨sum s, ?_, hmeans.congr fun x => zero_add _⟩
  rw [total, hs]
  rfl

end Expr

end LinearProgram
