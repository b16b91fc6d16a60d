import LinearProgram.Proofs.Expr.Forms
import LinearProgram.Proofs.Expr.Tree
import LinearProgram.Proofs.Scalar.Packing

/-!
Refusals of written expressions. What a tree is refused for depends on the forms of its operands
alone: `x - x` is no constant, so that its product with another variable is refused although it
would be zero. Nodes are taken in the order of evaluation, each after its operands, and evaluation
is traced along them: either no node offends, or the fault is that of the first one that does.
-/

namespace LinearProgram.Tree

section Nodes

variable {κ α : Type}

mutual

/-- The nodes below a tree in the order of evaluation, each after its operands. -/
def inner : Tree κ α → List (Tree κ α)
  | leaf _ => []
  | add a b | sub a b | mul a b | div a b => (a.inner ++ [a]) ++ (b.inner ++ [b])
  | neg a | scale _ a | toSum a => a.inner ++ [a]
  | total as => innerAll as

def innerAll : List (Tree κ α) → List (Tree κ α)
  | [] => []
  | a :: as => (a.inner ++ [a]) ++ innerAll as

end

/-- All nodes in the order of evaluation, the tree itself last. -/
def postorder (t : Tree κ α) : List (Tree κ α) := t.inner ++ [t]

/-- A node that is a sum of terms by the way it is written: a variable or a term, an expression made
a sum, or a total. -/
def symbolic : Tree κ (Expr κ) → Bool
  | leaf e => e.form ≠ .constant
  | toSum _ | total _ => true
  | _ => false

def isProductOrQuotient : Tree κ α → Bool
  | mul _ _ | div _ _ => true
  | _ => false

theorem self_mem_postorder (t : Tree κ α) : t ∈ t.postorder :=
  List.mem_append_right _ (List.mem_singleton.mpr rfl)

theorem not_forall_of_symbolic {t : Tree κ (Expr κ)} (h : t.symbolic = true) :
    ¬∀ u ∈ t.postorder, u.symbolic = false := by
  intro hplain
  rw [hplain t t.self_mem_postorder] at h
  cases h

end Nodes

variable {t a b : Tree Float (Expr Float)} {ts ts' : List (Tree Float (Expr Float))} {f : Fault}
  {β γ : Type} {P : β → Prop} {Q : γ → Prop}

/-- A node that cannot be linear, or is divided by zero, once its operands are evaluated. -/
inductive Offends : Tree Float (Expr Float) → FaultKind → Prop
  | product {a b : Tree Float (Expr Float)} {d d' : Expr Float} (ha : a.eval .ok = .ok d)
      (hb : b.eval .ok = .ok d') (hd : d.form ≠ .constant) (hd' : d'.form ≠ .constant) :
      Offends (mul a b) .nonlinear
  | divisor {a b : Tree Float (Expr Float)} {d : Expr Float} (hb : b.eval .ok = .ok d)
      (hd : d.form ≠ .constant) : Offends (div a b) .nonlinear
  | zero {a b : Tree Float (Expr Float)} {k : Float} (hb : b.eval .ok = .ok (.const k))
      (hk : k = 0 ∨ k = -0) : Offends (div a b) .unsupported

theorem not_offends (ht : t.isProductOrQuotient = false) (kind : FaultKind) : ¬t.Offends kind := by
  intro h
  cases h <;> cases ht

/-- The fault is that of the first offender. -/
def FirstFault (ts : List (Tree Float (Expr Float))) (f : Fault) : Prop :=
  ∃ before u after, ts = before ++ u :: after ∧ (∀ w ∈ before, ∀ kind, ¬w.Offends kind)
    ∧ u.Offends f.kind ∧ u.eval .ok = .error (.fault f)

/-- A computation along nodes: it has a result if none of them offends, and is refused at the first
one that does. -/
def Traced (o : Outcome β) (ts : List (Tree Float (Expr Float))) (P : β → Prop) : Prop :=
  (∃ b, o = .ok b ∧ (∀ w ∈ ts, ∀ kind, ¬w.Offends kind) ∧ P b)
    ∨ ∃ f, o = .error (.fault f) ∧ FirstFault ts f

theorem FirstFault.append (h : FirstFault ts f) (rest : List (Tree Float (Expr Float))) :
    FirstFault (ts ++ rest) f := by
  obtain ⟨before, u, after, rfl, hbefore, hu, heval⟩ := h
  exact ⟨before, u, after ++ rest, by simp, hbefore, hu, heval⟩

theorem FirstFault.prepend (h : FirstFault ts' f) (hts : ∀ w ∈ ts, ∀ kind, ¬w.Offends kind) :
    FirstFault (ts ++ ts') f := by
  obtain ⟨before, u, after, rfl, hbefore, hu, heval⟩ := h
  exact ⟨ts ++ before, u, after, by simp, List.forall_mem_append.mpr ⟨hts, hbefore⟩, hu, heval⟩

theorem Traced.bind {o : Outcome β} {k : β → Outcome γ} (ho : Traced o ts P)
    (hk : ∀ b, o = .ok b → P b → Traced (k b) ts' Q) : Traced (o >>= k) (ts ++ ts') Q := by
  rcases ho with ⟨b, rfl, hts, hb⟩ | ⟨f, rfl, hfirst⟩
  · rcases hk b rfl hb with ⟨c, hc, hts', hq⟩ | ⟨f, hf, hfirst⟩
    · exact .inl ⟨c, hc, List.forall_mem_append.mpr ⟨hts, hts'⟩, hq⟩
    · exact .inr ⟨f, hf, hfirst.prepend hts⟩
  · exact .inr ⟨f, rfl, hfirst.append ts'⟩

theorem Traced.imp {o : Outcome β} {P' : β → Prop} (h : Traced o ts P) (hP : ∀ b, P b → P' b) :
    Traced o ts P' := by
  rcases h with ⟨b, hb, hts, hp⟩ | hfirst
  · exact .inl ⟨b, hb, hts, hP b hp⟩
  · exact .inr hfirst

theorem Traced.map {o : Outcome β} {g : β → γ} (h : Traced o ts P) (hg : ∀ b, P b → Q (g b)) :
    Traced (do return g (← o)) ts Q := by
  rcases h with ⟨b, rfl, hts, hp⟩ | ⟨f, rfl, hfirst⟩
  · exact .inl ⟨g b, rfl, hts, hg b hp⟩
  · exact .inr ⟨f, rfl, hfirst⟩

/-- The last node of a computation that succeeds there. -/
theorem traced_of_yields {o : Outcome (Expr Float)} {bare : Prop} (h : Expr.Yields o bare)
    (ht : ∀ kind, ¬t.Offends kind) :
    Traced o [t] fun e => e.InWords ∧ (e.form = .constant ↔ bare) := by
  obtain ⟨e, he, hwords, hform⟩ := h
  exact .inl ⟨e, he, List.forall_mem_singleton.mpr ht, hwords, hform⟩

/-- The last node of a computation that is refused there. -/
theorem traced_of_refused (heval : t.eval .ok = .refuse f) (ht : t.Offends f.kind) :
    Traced (Outcome.refuse f) [t] P :=
  .inr ⟨f, rfl, [], t, [], rfl, List.forall_mem_nil _, ht, heval⟩

/-- How a tree in words evaluates. -/
def Decided (t : Tree Float (Expr Float)) : Prop :=
  Traced (t.eval .ok) t.postorder fun e =>
    e.InWords ∧ (e.form = .constant ↔ ∀ u ∈ t.postorder, u.symbolic = false)

/-! ### One node -/

theorem mul_traced {d d' : Expr Float} (ha : a.eval .ok = .ok d) (hb : b.eval .ok = .ok d')
    (hd : d.InWords) (hd' : d'.InWords) :
    Traced (d.mul d') [mul a b] fun e =>
      e.InWords ∧ (e.form = .constant ↔ d.form = .constant ∧ d'.form = .constant) := by
  by_cases h : d.form = .constant ∨ d'.form = .constant
  · -- the operands have one value each, so that an offence would contradict the bare factor
    refine traced_of_yields (Expr.mul_yields hd hd' h) ?_
    rintro _ (⟨hc, hc', hne, hne'⟩)
    cases ha.symm.trans hc
    cases hb.symm.trans hc'
    exact h.elim hne hne'
  · obtain ⟨hne, hne'⟩ := not_or.mp h
    have hrefused := Expr.mul_refused hne hne'
    have heval : (mul a b).eval .ok = .refuse (.product d.form d'.form) := by
      rw [eval, ha, hb, Outcome.ok_bind, Outcome.ok_bind, hrefused]
    rw [hrefused]
    exact traced_of_refused heval (.product ha hb hne hne')

theorem div_traced {d d' : Expr Float} (ha : a.eval .ok = .ok d) (hb : b.eval .ok = .ok d')
    (hd : d.InWords) :
    Traced (d.div d') [div a b] fun e =>
      e.InWords ∧ (e.form = .constant ↔ d.form = .constant ∧ d'.form = .constant) := by
  have heval : (div a b).eval .ok = d.div d' := by
    rw [eval, ha, hb, Outcome.ok_bind, Outcome.ok_bind]
  by_cases hform : d'.form = .constant
  · obtain ⟨k, rfl⟩ := Expr.exists_const_of_form hform
    cases hk : k == 0 with
    | true =>
        have hrefused := Expr.div_zero_refused d hk
        rw [hrefused] at heval ⊢
        exact traced_of_refused heval (.zero hb (Packing.beq_zero_iff_eq.mp hk))
    | false =>
        have hbare : d.form = .constant ∧ (Expr.const k).form = .constant ↔ d.form = .constant :=
          and_iff_left rfl
        rw [hbare]
        refine traced_of_yields (Expr.div_yields hd hk) ?_
        rintro _ (_ | ⟨hc, hne⟩ | ⟨hc, hzero⟩)
        · cases hb.symm.trans hc
          exact hne rfl
        · cases hb.symm.trans hc
          rw [Packing.beq_zero_iff_eq.mpr hzero] at hk
          cases hk
  · have hrefused := Expr.div_refused d hform
    rw [hrefused] at heval ⊢
    exact traced_of_refused heval (.divisor hb hform)

/-! ### Operands and the node above them -/

theorem decided_of_operands {op : Expr Float → Expr Float → Outcome (Expr Float)}
    (ha : a.Decided) (hb : b.Decided) (hinner : t.inner = a.postorder ++ b.postorder)
    (hsymbolic : t.symbolic = false)
    (heval : t.eval .ok = do let d ← a.eval .ok; let d' ← b.eval .ok; op d d')
    (hop : ∀ d d', a.eval .ok = .ok d → b.eval .ok = .ok d' → d.InWords → d'.InWords →
      Traced (op d d') [t] fun e =>
        e.InWords ∧ (e.form = .constant ↔ d.form = .constant ∧ d'.form = .constant)) :
    t.Decided := by
  have hnodes : t.postorder = a.postorder ++ (b.postorder ++ [t]) := by
    rw [postorder, hinner, List.append_assoc]
  rw [Decided, heval, hnodes]
  refine ha.bind fun d hd ⟨hwords, hform⟩ => hb.bind fun d' hd' ⟨hwords', hform'⟩ => ?_
  refine (hop d d' hd hd' hwords hwords').imp fun e ⟨he, hbare⟩ => ⟨he, ?_⟩
  rw [hbare, hform, hform', List.forall_mem_append, List.forall_mem_append,
    List.forall_mem_singleton, hsymbolic, and_iff_left rfl]

theorem decided_of_scaled {k : Float} (ha : a.Decided) (hinner : t.inner = a.postorder)
    (hsymbolic : t.symbolic = false) (hoffends : ∀ kind, ¬t.Offends kind)
    (heval : t.eval .ok = do return (← a.eval .ok).scale k) : t.Decided := by
  rw [Decided, heval, postorder, hinner]
  refine ha.bind fun d _ ⟨hwords, hform⟩ => ?_
  refine (traced_of_yields (Expr.scale_yields k hwords) hoffends).imp fun e ⟨he, hbare⟩ => ⟨he, ?_⟩
  rw [hbare, hform, List.forall_mem_append, List.forall_mem_singleton, hsymbolic, and_iff_left rfl]

theorem evalAll_traced {as : List (Tree Float (Expr Float))} (has : ∀ a ∈ as, a.Decided) :
    Traced (evalAll .ok as) (innerAll as) fun es => ∀ e ∈ es, e.InWords := by
  induction as with
  | nil => exact .inl ⟨[], rfl, List.forall_mem_nil _, List.forall_mem_nil _⟩
  | cons a as ih =>
      obtain ⟨ha, hrest⟩ := List.forall_mem_cons.mp has
      rw [evalAll, innerAll]
      refine ha.bind fun e _ ⟨he, _⟩ => ?_
      exact (ih hrest).map fun es hes => List.forall_mem_cons.mpr ⟨he, hes⟩

/-! ### Trees -/

theorem decided_of_words (ht : ∀ e ∈ t.leaves, e.InWords) : t.Decided := by
  induction t with
  | leaf e =>
      have he : e.InWords := ht e (List.mem_singleton.mpr rfl)
      have hleaf : Expr.Yields (.ok e) (∀ u ∈ (leaf e).postorder, u.symbolic = false) := by
        refine ⟨e, rfl, he, ?_⟩
        simp [postorder, inner, symbolic]
      exact traced_of_yields hleaf (not_offends rfl)
  | add a b iha ihb =>
      obtain ⟨hta, htb⟩ := List.forall_mem_append.mp ht
      exact decided_of_operands (iha hta) (ihb htb) rfl rfl rfl fun d d' _ _ hd hd' =>
        traced_of_yields (Expr.add_yields hd hd') (not_offends rfl)
  | sub a b iha ihb =>
      obtain ⟨hta, htb⟩ := List.forall_mem_append.mp ht
      exact decided_of_operands (iha hta) (ihb htb) rfl rfl rfl fun d d' _ _ hd hd' =>
        traced_of_yields (Expr.sub_yields hd hd') (not_offends rfl)
  | mul a b iha ihb =>
      obtain ⟨hta, htb⟩ := List.forall_mem_append.mp ht
      exact decided_of_operands (iha hta) (ihb htb) rfl rfl rfl fun d d' => mul_traced
  | div a b iha ihb =>
      obtain ⟨hta, htb⟩ := List.forall_mem_append.mp ht
      exact decided_of_operands (iha hta) (ihb htb) rfl rfl rfl fun d d' ha hb hd _ =>
        div_traced ha hb hd
  | neg a ih => exact decided_of_scaled (k := -1) (ih ht) rfl rfl (not_offends rfl) rfl
  | scale k a ih => exact decided_of_scaled (ih ht) rfl rfl (not_offends rfl) rfl
  | toSum a ih =>
      have hsum : ¬∀ u ∈ (toSum a).postorder, u.symbolic = false := not_forall_of_symbolic rfl
      refine (ih ht).bind fun d _ ⟨hd, _⟩ => ?_
      exact traced_of_yields (Expr.yields_sum (Expr.toSum_inWords hd) hsum) (not_offends rfl)
  | total as ih =>
      have hsum : ¬∀ u ∈ (total as).postorder, u.symbolic = false := not_forall_of_symbolic rfl
      have has : ∀ a ∈ as, a.Decided := fun a ha =>
        ih a ha fun e he => ht e (mem_leaves_total ha he)
      -- all operands are evaluated before they are added, and adding them cannot fail
      refine (evalAll_traced has).bind fun es _ hes => ?_
      exact traced_of_yields (Expr.total_yields hes hsum) (not_offends rfl)

/-- A tree over expressions with columns in words evaluates to a bare number, if it evaluates, just
if no node is symbolic. It is refused just if some node offends: a product both of whose operands
come out as other than bare numbers, or a quotient whose divisor does or is a zero. The fault is
then that of the first offender in the order of evaluation, and of the kind that it offends with. -/
theorem refused_at_first_offender (t : Tree Float (Expr Float)) (ht : ∀ e ∈ t.leaves, e.InWords) :
    (∀ e, t.eval .ok = .ok e →
        (e.form = .constant ↔ ∀ u ∈ t.postorder, u.symbolic = false))
      ∧ ((∃ failure, t.eval .ok = .error failure) ↔ ∃ u ∈ t.postorder, ∃ kind, u.Offends kind)
      ∧ ∀ failure, t.eval .ok = .error failure → ∃ before u after fault,
          t.postorder = before ++ u :: after ∧ (∀ w ∈ before, ∀ kind, ¬w.Offends kind)
            ∧ u.Offends fault.kind ∧ u.eval .ok = .error (.fault fault)
            ∧ failure = .fault fault := by
  rcases decided_of_words ht with ⟨e, he, hclear, -, hform⟩ | ⟨f, hf, hfirst⟩
  · rw [he]
    refine ⟨fun e' heq => ?_, ?_, fun failure heq => ?_⟩
    · cases heq
      exact hform
    · constructor
      · rintro ⟨failure, heq⟩
        cases heq
      · rintro ⟨u, hu, kind, hoffends⟩
        exact absurd hoffends (hclear u hu kind)
    · cases heq
  · rw [hf]
    obtain ⟨before, u, after, hnodes, hbefore, hu, heval⟩ := hfirst
    have hmem : u ∈ t.postorder := by
      rw [hnodes]
      exact List.mem_append_right _ List.mem_cons_self
    refine ⟨fun e heq => ?_, iff_of_true ⟨_, rfl⟩ ⟨u, hmem, f.kind, hu⟩, fun failure heq => ?_⟩
    · cases heq
    · cases heq
      exact ⟨before, u, after, f, hnodes, hbefore, hu, heval, rfl⟩

/-- The difference of a variable and itself, times another one, over the negative zero. -/
def vanishing : Tree Float (Expr Float) :=
  .div (.mul (.sub (.leaf (.var ⟨3, 2⟩)) (.leaf (.var ⟨3, 2⟩))) (.leaf (.var ⟨0, 1⟩)))
    (.leaf (.const (-0)))

theorem refused_of_vanishing :
    (∀ e ∈ vanishing.leaves, e.InWords) ∧ vanishing.Offends .unsupported
      ∧ (∃ failure, vanishing.eval .ok = .error failure)
      ∧ ∃ before u after, vanishing.postorder = before ++ u :: after
        ∧ (∀ w ∈ before, ∀ kind, ¬w.Offends kind) ∧ u.Offends .nonlinear
        ∧ u.eval .ok = .error (.fault (.product .sum .single)) := by
  have hwords : ∀ e ∈ vanishing.leaves, e.InWords := by decide
  have hzero : vanishing.Offends .unsupported := .zero rfl (.inr rfl)
  have heval : vanishing.eval .ok = .error (.fault (.product .sum .single)) := rfl
  obtain ⟨-, hrefused, hfirst⟩ := refused_at_first_offender vanishing hwords
  obtain ⟨before, u, after, fault, hnodes, hbefore, hu, hfault, heq⟩ := hfirst _ heval
  cases heq
  have hfails := hrefused.mpr ⟨vanishing, vanishing.self_mem_postorder, _, hzero⟩
  exact ⟨hwords, hzero, hfails, before, u, after, hnodes, hbefore, hu, hfault⟩

end LinearProgram.Tree
