import LinearProgram.Expr.Tree
import LinearProgram.Proofs.Expr.Algebra

/-!
Written expressions and the functions they denote. A tree denotes what its leaves denote, combined
by ordinary arithmetic of rationals; what is accumulated term by term is a chain of `add` or `sub`,
as `Formula.accumulate` and `Formula.deplete` write it. Main statement: if a tree evaluates at all,
the result has the linear form and the values of what the tree denotes.
-/

namespace LinearProgram.Tree

variable {κ α : Type}

/-- Induction with every operand of a total as a subtree. -/
@[induction_eliminator]
theorem induction {P : Tree κ α → Prop} (leaf : ∀ a, P (.leaf a))
    (add : ∀ a b, P a → P b → P (.add a b)) (sub : ∀ a b, P a → P b → P (.sub a b))
    (mul : ∀ a b, P a → P b → P (.mul a b)) (div : ∀ a b, P a → P b → P (.div a b))
    (neg : ∀ a, P a → P (.neg a)) (scale : ∀ k a, P a → P (.scale k a))
    (toSum : ∀ a, P a → P (.toSum a)) (total : ∀ as, (∀ a ∈ as, P a) → P (.total as))
    (t : Tree κ α) : P t :=
  @Tree.rec κ α P (fun as => ∀ a ∈ as, P a) leaf add sub mul div neg scale toSum total
    (fun _ h => nomatch h) (fun _ _ ha has => List.forall_mem_cons.mpr ⟨ha, has⟩) t

mutual

def leaves : Tree κ α → List α
  | leaf a => [a]
  | add a b | sub a b | mul a b | div a b => a.leaves ++ b.leaves
  | neg a | scale _ a | toSum a => a.leaves
  | total as => leavesAll as

def leavesAll : List (Tree κ α) → List α
  | [] => []
  | a :: as => a.leaves ++ leavesAll as

end

mutual

/-- The number that a tree denotes when each leaf denotes a number. -/
def denote (number : α → Rat) : Tree Rat α → Rat
  | leaf a => number a
  | add a b => a.denote number + b.denote number
  | sub a b => a.denote number - b.denote number
  | mul a b => a.denote number * b.denote number
  | div a b => a.denote number / b.denote number
  | neg a => -a.denote number
  | scale k a => k * a.denote number
  | toSum a => a.denote number
  | total as => denoteAll number as

def denoteAll (number : α → Rat) : List (Tree Rat α) → Rat
  | [] => 0
  | a :: as => a.denote number + denoteAll number as

end

theorem leavesAll_eq (as : List (Tree κ α)) : leavesAll as = as.flatMap leaves := by
  induction as with
  | nil => rfl
  | cons a as ih => rw [leavesAll, ih, List.flatMap_cons]

theorem mem_leaves_total {as : List (Tree κ α)} {a : Tree κ α} {l : α} (ha : a ∈ as)
    (hl : l ∈ a.leaves) : l ∈ (total as).leaves := by
  rw [leaves, leavesAll_eq]
  exact List.mem_flatMap.mpr ⟨a, ha, hl⟩

theorem denoteAll_eq (number : α → Rat) (as : List (Tree Rat α)) :
    denoteAll number as = as.foldr (fun a v => a.denote number + v) 0 := by
  induction as with
  | nil => rfl
  | cons a as ih => rw [denoteAll, ih, List.foldr_cons]

theorem evalAll_eq_ok [Scalar κ] {value : α → Outcome (Expr κ)} {as : List (Tree κ α)}
    {es : List (Expr κ)} (h : evalAll value as = .ok es) :
    List.Forall₂ (fun a e => a.eval value = .ok e) as es := by
  induction as generalizing es with
  | nil =>
      cases h
      exact .nil
  | cons a as ih =>
      obtain ⟨e, he, hrest⟩ := Outcome.bind_eq_ok_iff.mp h
      obtain ⟨rest, has, heq⟩ := Outcome.bind_eq_ok_iff.mp hrest
      cases heq
      exact .cons he (ih has)

/-- The value of a tree at a point, where each leaf has the value of the expression that it stands
for. -/
def valueAt (value : α → Outcome (Expr Rat)) (t : Tree Rat α) (x : Nat → Rat) : Rat :=
  t.denote fun a => (value a).toOption.elim 0 fun e => e.raw.valueAt x

def Filed (value : α → Outcome (Expr κ)) (t : Tree κ α) : Prop :=
  ∀ a ∈ t.leaves, ∀ e, value a = .ok e → e.Filed

theorem Filed.operands {value : α → Outcome (Expr κ)} {a b : Tree κ α}
    (h : ∀ l ∈ a.leaves ++ b.leaves, ∀ e, value l = .ok e → e.Filed) :
    a.Filed value ∧ b.Filed value := List.forall_mem_append.mp h

theorem Filed.of_total {value : α → Outcome (Expr κ)} {as : List (Tree κ α)}
    (h : (total as).Filed value) : ∀ a ∈ as, a.Filed value :=
  fun _ ha l hl => h l (mem_leaves_total ha hl)

section Evaluation

variable {value : α → Outcome (Expr Rat)} {t : Tree Rat α} {e : Expr Rat}

theorem operands_means {op : Expr Rat → Expr Rat → Outcome (Expr Rat)} {a b : Tree Rat α}
    {f g : (Nat → Rat) → Rat} (ha : ∀ d, a.eval value = .ok d → d.Means f)
    (hb : ∀ d, b.eval value = .ok d → d.Means g)
    (h : (do let d ← a.eval value; let d' ← b.eval value; op d d') = .ok e) :
    ∃ d d', d.Means f ∧ d'.Means g ∧ op d d' = .ok e := by
  obtain ⟨d, hd, hrest⟩ := Outcome.bind_eq_ok_iff.mp h
  obtain ⟨d', hd', hop⟩ := Outcome.bind_eq_ok_iff.mp hrest
  exact ⟨d, d', ha d hd, hb d' hd', hop⟩

theorem eval_means (ht : t.Filed value) (h : t.eval value = .ok e) :
    e.Means (t.valueAt value) := by
  induction t generalizing e with
  | leaf a =>
      have hvalue : value a = .ok e := h
      refine ⟨ht a (List.mem_singleton.mpr rfl) e hvalue, fun x => ?_⟩
      rw [valueAt, denote, hvalue]
      rfl
  | add a b iha ihb =>
      obtain ⟨hta, htb⟩ := Filed.operands ht
      obtain ⟨d, d', hd, hd', hop⟩ := operands_means (fun _ => iha hta) (fun _ => ihb htb) h
      obtain ⟨r, hr, hmeans⟩ := hd.add hd'
      cases hop.symm.trans hr
      exact hmeans
  | sub a b iha ihb =>
      obtain ⟨hta, htb⟩ := Filed.operands ht
      obtain ⟨d, d', hd, hd', hop⟩ := operands_means (fun _ => iha hta) (fun _ => ihb htb) h
      obtain ⟨r, hr, hmeans⟩ := hd.sub hd'
      cases hop.symm.trans hr
      exact hmeans
  | mul a b iha ihb =>
      obtain ⟨hta, htb⟩ := Filed.operands ht
      obtain ⟨d, d', hd, hd', hop⟩ := operands_means (fun _ => iha hta) (fun _ => ihb htb) h
      exact hd.mul hd' hop
  | div a b iha ihb =>
      obtain ⟨hta, htb⟩ := Filed.operands ht
      obtain ⟨d, d', hd, hd', hop⟩ := operands_means (fun _ => iha hta) (fun _ => ihb htb) h
      exact hd.div hd' hop
  | neg a ih =>
      obtain ⟨d, hd, hop⟩ := Outcome.bind_eq_ok_iff.mp h
      cases hop
      exact (ih ht hd).neg
  | scale k a ih =>
      obtain ⟨d, hd, hop⟩ := Outcome.bind_eq_ok_iff.mp h
      cases hop
      exact (ih ht hd).scale k
  | toSum a ih =>
      obtain ⟨d, hd, hop⟩ := Outcome.bind_eq_ok_iff.mp h
      obtain ⟨s, hs, heq⟩ := Outcome.bind_eq_ok_iff.mp hop
      cases heq
      obtain ⟨s', hs', hmeans⟩ := (ih ht hd).toSum
      cases hs.symm.trans hs'
      exact hmeans
  | total as ih =>
      obtain ⟨es, hes, hop⟩ := Outcome.bind_eq_ok_iff.mp h
      have hsound : ∀ a ∈ as, ∀ e, a.eval value = .ok e → e.Means (a.valueAt value) :=
        fun a ha e => ih a ha (ht.of_total a ha)
      have hmeans : List.Forall₂ Expr.Means es (as.map (valueAt value)) := by
        rw [List.forall₂_map_right_iff]
        have hboth := (List.forall₂_and_left _ _).mpr ⟨hsound, evalAll_eq_ok hes⟩
        exact hboth.flip.imp fun e a ⟨hsound, heval⟩ => hsound e heval
      obtain ⟨r, hr, htotal⟩ := Expr.total_means hmeans
      cases hop.symm.trans hr
      refine htotal.congr fun x => ?_
      rw [valueAt, denote, denoteAll_eq, List.foldr_map]
      rfl

/-- If two trees evaluate, each result has the one canonical linear form of what its tree denotes,
the forms are equal just if the trees denote the same function, and at every point that reaches all
columns of a result its value is what the tree denotes there, at others it has none. -/
theorem linearForm_of_tree {t' : Tree Rat α} {e' : Expr Rat} (ht : t.Filed value)
    (ht' : t'.Filed value) (h : t.eval value = .ok e) (h' : t'.eval value = .ok e') :
    (∃ form, e.linearForm = .ok form ∧ form.Canonical
        ∧ ∀ x, form.valueAt x = t.valueAt value x)
      ∧ (e.linearForm = e'.linearForm ↔ ∀ x, t.valueAt value x = t'.valueAt value x)
      ∧ ∃ raw, e.rawForm = .ok raw ∧ ∀ point : List Rat,
          e.evaluate point
            = .ok (if ∀ p ∈ raw.entries, p.1 < point.length then
                some (t.valueAt value (point.getD · 0)) else none) := by
  have hmeans := eval_means ht h
  have hmeans' := eval_means ht' h'
  exact ⟨hmeans.linearForm, hmeans.linearForm_eq_iff hmeans',
    e.raw, hmeans.filed.rawForm, hmeans.evaluate⟩

end Evaluation

/-- The variable in column five, less half of the sum of another one in that column and four. -/
def crossed : Tree Rat (Expr Rat) :=
  .sub (.leaf (.var ⟨5, 0⟩))
    (.div (.total [.leaf (.term ⟨⟨3, 2⟩, 1⟩), .leaf (.const 4)]) (.leaf (.const 2)))

/-- Half of the variable in column five, less two. -/
def straight : Tree Rat (Expr Rat) :=
  .add (.scale (1 / 2) (.leaf (.var ⟨4, 1⟩))) (.neg (.leaf (.const 2)))

theorem linearForm_of_crossed :
    crossed.Filed .ok ∧ straight.Filed .ok
      ∧ ∃ e e', crossed.eval .ok = .ok e ∧ straight.eval .ok = .ok e'
        ∧ e.linearForm = e'.linearForm := by
  have hcrossed : crossed.Filed .ok := by
    intro a ha e he
    cases he
    simp only [crossed, leaves, leavesAll, List.mem_append, List.mem_singleton,
      List.not_mem_nil, or_false] at ha
    rcases ha with rfl | (rfl | rfl) | rfl
    · exact (by decide : 5 + 0 < Word.limit)
    · exact (by decide : 3 + 2 < Word.limit)
    · trivial
    · trivial
  have hstraight : straight.Filed .ok := by
    intro a ha e he
    cases he
    simp only [straight, leaves, List.mem_append, List.mem_singleton] at ha
    rcases ha with rfl | rfl
    · exact (by decide : 4 + 1 < Word.limit)
    · trivial
  obtain ⟨-, hforms, -⟩ := linearForm_of_tree hcrossed hstraight rfl rfl
  refine ⟨hcrossed, hstraight, _, _, rfl, rfl, hforms.mpr fun x => ?_⟩
  simp only [valueAt, crossed, straight, denote, denoteAll, Except.toOption, Option.elim_some,
    Expr.raw, LinearForm.valueAt, LinearForm.dot]
  ring

end LinearProgram.Tree
