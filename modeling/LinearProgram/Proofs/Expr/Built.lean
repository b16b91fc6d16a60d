import LinearProgram.Proofs.Expr.Terms
import LinearProgram.Proofs.Expr.Tree

/-!
Good order for scalars of any kind. What the arithmetic yields from expressions in good order is in
good order; an expression that is built from numbers, variables and terms in words therefore is,
whatever the numbers do.
-/

namespace LinearProgram

variable {κ : Type} [Scalar κ]

namespace LinearSum

variable {s r : LinearSum κ} {ts : List (Term κ)} {terms : List (Nat × Term κ)} {e : Expr κ}

theorem Filed.insertAll (h : Filed terms) (hts : ∀ t ∈ ts, t.column < Word.limit) :
    Filed (insertAll ts terms) := by
  have hcolumns : ∀ t ∈ ts, t.ref.column = .ok t.column := fun t ht =>
    Variable.column_eq_ok_iff.mpr ⟨hts t ht, rfl⟩
  exact ⟨forall_insertAll (P := fun j x => x.column = .ok j) hcolumns h.column,
    ascending_insertAll h.ascending⟩

theorem Filed.add (hs : Filed s.terms) (he : e.InWords) (h : s.add e = .ok r) :
    Filed r.terms := by
  rw [add_eq_ok s he] at h
  cases h
  exact hs.insertAll he

theorem Filed.subtract (hs : Filed s.terms) (he : e.InWords) (h : s.subtract e = .ok r) :
    Filed r.terms := by
  rw [subtract_eq_ok s he] at h
  cases h
  exact hs.insertAll (List.forall_mem_map.mpr he)

theorem Filed.addAll {es : List (Expr κ)} (hs : Filed s.terms) (hes : ∀ e ∈ es, e.InWords)
    (h : es.foldlM LinearSum.add s = .ok r) : Filed r.terms := by
  induction es generalizing s with
  | nil =>
      cases h
      exact hs
  | cons e es ih =>
      obtain ⟨he, hrest⟩ := List.forall_mem_cons.mp hes
      rw [List.foldlM_cons] at h
      obtain ⟨s', hs', h⟩ := Outcome.bind_eq_ok_iff.mp h
      exact ih (hs.add he hs') hrest h

omit [Scalar κ] in
theorem filed_nil : Filed ([] : List (Nat × Term κ)) := ⟨List.forall_mem_nil _, .nil⟩

end LinearSum

namespace Expr

variable {a b e : Expr κ} {s : LinearSum κ}

theorem Filed.inWords (h : e.Filed) : e.InWords := by
  cases e with
  | const v => exact List.forall_mem_nil _
  | var x => exact List.forall_mem_singleton.mpr h
  | term t => exact List.forall_mem_singleton.mpr h
  | sum s =>
      refine List.forall_mem_map.mpr fun p hp => ?_
      exact (Variable.column_eq_ok_iff.mp (LinearSum.Filed.column h p hp)).1

theorem Filed.toSum (ha : a.Filed) (h : a.toSum = .ok s) : LinearSum.Filed s.terms := by
  cases a with
  | const v =>
      cases h
      exact LinearSum.filed_nil
  | var x => exact LinearSum.filed_nil.add (s := .zero) (e := var x) ha.inWords h
  | term t => exact LinearSum.filed_nil.add (s := .zero) (e := term t) ha.inWords h
  | sum r =>
      cases h
      exact ha

theorem Filed.add (ha : a.Filed) (hb : b.Filed) (h : a.add b = .ok e) : e.Filed := by
  unfold Expr.add at h
  split at h
  · cases h
    trivial
  · obtain ⟨r, hr, heq⟩ := Outcome.bind_eq_ok_iff.mp h
    cases heq
    exact LinearSum.Filed.add ha hb.inWords hr
  · obtain ⟨r, hr, heq⟩ := Outcome.bind_eq_ok_iff.mp h
    cases heq
    exact LinearSum.Filed.add hb ha.inWords hr
  · obtain ⟨s, hs, h⟩ := Outcome.bind_eq_ok_iff.mp h
    obtain ⟨r, hr, heq⟩ := Outcome.bind_eq_ok_iff.mp h
    cases heq
    exact (ha.toSum hs).add hb.inWords hr

theorem Filed.sub (ha : a.Filed) (hb : b.Filed) (h : a.sub b = .ok e) : e.Filed := by
  unfold Expr.sub at h
  split at h
  · cases h
    trivial
  · obtain ⟨s, hs, h⟩ := Outcome.bind_eq_ok_iff.mp h
    obtain ⟨r, hr, heq⟩ := Outcome.bind_eq_ok_iff.mp h
    cases heq
    exact (ha.toSum hs).subtract hb.inWords hr

theorem Filed.scale (k : κ) (ha : a.Filed) : (a.scale k).Filed := by
  cases a with
  | const v => trivial
  | var x => exact ha
  | term t => exact ha
  | sum s =>
      exact ⟨List.forall_mem_map.mpr (LinearSum.Filed.column ha),
        List.pairwise_map.mpr (LinearSum.Filed.ascending ha)⟩

theorem Filed.mul (ha : a.Filed) (hb : b.Filed) (h : a.mul b = .ok e) : e.Filed := by
  unfold Expr.mul at h
  split at h
  · cases h
    trivial
  · cases h
    exact hb.scale _
  · cases h
    exact ha.scale _
  · cases h

theorem Filed.div (ha : a.Filed) (h : a.div b = .ok e) : e.Filed := by
  unfold Expr.div at h
  split at h
  · split at h
    · cases h
    · cases h
      exact ha.scale _
  · cases h

theorem filed_total {es : List (Expr κ)} (hes : ∀ e ∈ es, e.Filed) (h : total es = .ok e) :
    e.Filed := by
  obtain ⟨s, hs, heq⟩ := Outcome.bind_eq_ok_iff.mp h
  cases heq
  exact LinearSum.filed_nil.addAll (s := .zero) (fun e he => (hes e he).inWords) hs

end Expr

/-! ### Written expressions -/

theorem Tree.eval_filed {α : Type} {value : α → Outcome (Expr κ)} {t : Tree κ α} {e : Expr κ}
    (ht : t.Filed value) (h : t.eval value = .ok e) : e.Filed := by
  induction t generalizing e with
  | leaf a => exact ht a (List.mem_singleton.mpr rfl) e h
  | add a b iha ihb =>
      obtain ⟨hta, htb⟩ := Filed.operands ht
      obtain ⟨d, hd, h⟩ := Outcome.bind_eq_ok_iff.mp h
      obtain ⟨d', hd', hop⟩ := Outcome.bind_eq_ok_iff.mp h
      exact (iha hta hd).add (ihb htb hd') hop
  | sub a b iha ihb =>
      obtain ⟨hta, htb⟩ := Filed.operands ht
      obtain ⟨d, hd, h⟩ := Outcome.bind_eq_ok_iff.mp h
      obtain ⟨d', hd', hop⟩ := Outcome.bind_eq_ok_iff.mp h
      exact (iha hta hd).sub (ihb htb hd') hop
  | mul a b iha ihb =>
      obtain ⟨hta, htb⟩ := Filed.operands ht
      obtain ⟨d, hd, h⟩ := Outcome.bind_eq_ok_iff.mp h
      obtain ⟨d', hd', hop⟩ := Outcome.bind_eq_ok_iff.mp h
      exact (iha hta hd).mul (ihb htb hd') hop
  | div a b iha ihb =>
      obtain ⟨hta, -⟩ := Filed.operands ht
      obtain ⟨d, hd, h⟩ := Outcome.bind_eq_ok_iff.mp h
      obtain ⟨d', -, hop⟩ := Outcome.bind_eq_ok_iff.mp h
      exact (iha hta hd).div hop
  | neg a ih =>
      obtain ⟨d, hd, hop⟩ := Outcome.bind_eq_ok_iff.mp h
      cases hop
      exact (ih ht hd).scale _
  | scale k a ih =>
      obtain ⟨d, hd, hop⟩ := Outcome.bind_eq_ok_iff.mp h
      cases hop
      exact (ih ht hd).scale k
  | toSum a ih =>
      obtain ⟨d, hd, h⟩ := Outcome.bind_eq_ok_iff.mp h
      obtain ⟨s, hs, heq⟩ := Outcome.bind_eq_ok_iff.mp h
      cases heq
      exact (ih ht hd).toSum hs
  | total as ih =>
      obtain ⟨es, hes, hop⟩ := Outcome.bind_eq_ok_iff.mp h
      have hall : as.mapM (eval value) = .ok es := Outcome.mapM_eq_ok_iff.mpr (evalAll_eq_ok hes)
      refine Expr.filed_total (fun e he => ?_) hop
      obtain ⟨a, ha, heval⟩ := Outcome.exists_of_mem_mapM hall he
      exact ih a ha (ht.of_total a ha) heval

namespace Expr

/-- What comes of numbers, variables and terms in words by the arithmetic of expressions. -/
def Built (e : Expr κ) : Prop :=
  ∃ t : Tree κ (Expr κ), (∀ l ∈ t.leaves, l.form ≠ .sum ∧ l.InWords) ∧ t.eval .ok = .ok e

variable {e : Expr κ}

theorem filed_of_form (hform : e.form ≠ .sum) (h : e.InWords) : e.Filed := by
  cases e with
  | const v => trivial
  | var x => exact h _ (List.mem_singleton.mpr rfl)
  | term t => exact h _ (List.mem_singleton.mpr rfl)
  | sum s => exact absurd rfl hform

theorem Built.filed (h : e.Built) : e.Filed := by
  obtain ⟨t, hleaves, heval⟩ := h
  refine Tree.eval_filed (fun l hl d hd => ?_) heval
  cases hd
  obtain ⟨hform, hwords⟩ := hleaves l hl
  exact filed_of_form hform hwords

end Expr

end LinearProgram
