import LinearProgram.Fault
import Mathlib.Data.List.Forall2

/-!
Results of requests, step by step: a request of several steps succeeds when each of them does, and
one step for every element of a list succeeds when it does at each element.
-/

namespace LinearProgram.Outcome

variable {α β : Type}

@[simp]
theorem pure_eq_ok (a : α) : (pure a : Outcome α) = .ok a := rfl

@[simp]
theorem ok_bind (a : α) (f : α → Outcome β) : (Except.ok a >>= f) = f a := rfl

@[simp]
theorem error_bind (e : Failure) (f : α → Outcome β) :
    ((Except.error e : Outcome α) >>= f) = .error e := rfl

@[simp]
theorem refuse_ne_ok (f : Fault) (a : α) : (refuse f : Outcome α) ≠ .ok a := by
  intro h
  cases h

/-- Refused with a fault of the given kind. -/
def RefusedAs (kind : FaultKind) (o : Outcome α) : Prop :=
  ∃ f : Fault, f.kind = kind ∧ o = refuse f

theorem RefusedAs.bind {kind : FaultKind} {o : Outcome α} (h : o.RefusedAs kind)
    (f : α → Outcome β) : RefusedAs kind (o >>= f) := by
  obtain ⟨fault, hkind, rfl⟩ := h
  exact ⟨fault, hkind, rfl⟩

theorem exists_error_iff {o : Outcome α} : (∃ e, o = .error e) ↔ ∀ a, o ≠ .ok a := by
  cases o with
  | error e => simp
  | ok a => simp

theorem bind_eq_ok_iff {o : Outcome α} {f : α → Outcome β} {b : β} :
    o >>= f = .ok b ↔ ∃ a, o = .ok a ∧ f a = .ok b := by
  cases o with
  | error e => simp
  | ok a => simp

theorem bind_eq_error_iff {o : Outcome α} {f : α → Outcome β} {e : Failure} :
    o >>= f = .error e ↔ o = .error e ∨ ∃ a, o = .ok a ∧ f a = .error e := by
  cases o with
  | error e' => simp
  | ok a => simp

/-- A checked computation fails just when its check does. -/
theorem check_eq_error_iff {p : Prop} [Decidable p] {a : α} {t : Trap} {e : Failure} :
    (if p then .ok a else trap t) = .error e ↔ ¬p ∧ e = .trap t := by
  split <;> rename_i h
  · simp [h]
  · simp [h, trap, eq_comm]

theorem mapM_eq_ok_iff {f : α → Outcome β} {xs : List α} {ys : List β} :
    xs.mapM f = .ok ys ↔ List.Forall₂ (fun x y => f x = .ok y) xs ys := by
  induction xs generalizing ys with
  | nil => cases ys <;> simp
  | cons x xs ih =>
      rw [List.mapM_cons, bind_eq_ok_iff]
      constructor
      · rintro ⟨y, hy, hrest⟩
        obtain ⟨zs, hzs, heq⟩ := bind_eq_ok_iff.mp hrest
        cases heq
        exact .cons hy (ih.mp hzs)
      · intro h
        cases h with
        | cons hy hys => exact ⟨_, hy, bind_eq_ok_iff.mpr ⟨_, ih.mpr hys, rfl⟩⟩

theorem exists_forall₂_iff {f : α → Outcome β} {xs : List α} :
    (∃ ys, List.Forall₂ (fun x y => f x = .ok y) xs ys) ↔ ∀ x ∈ xs, ∃ y, f x = .ok y := by
  constructor
  · rintro ⟨ys, h⟩
    induction h with
    | nil => exact List.forall_mem_nil _
    | cons hy _ ih => exact List.forall_mem_cons.mpr ⟨⟨_, hy⟩, ih⟩
  · intro h
    induction xs with
    | nil => exact ⟨[], .nil⟩
    | cons x xs ih =>
        obtain ⟨⟨y, hy⟩, hrest⟩ := List.forall_mem_cons.mp h
        obtain ⟨ys, hys⟩ := ih hrest
        exact ⟨y :: ys, .cons hy hys⟩

theorem exists_of_mem_mapM {f : α → Outcome β} {xs : List α} {ys : List β} {y : β}
    (h : xs.mapM f = .ok ys) (hy : y ∈ ys) : ∃ x ∈ xs, f x = .ok y := by
  rw [mapM_eq_ok_iff] at h
  induction h with
  | nil => cases hy
  | cons hhead _ ih =>
      rcases List.mem_cons.mp hy with rfl | hy
      · exact ⟨_, List.mem_cons_self, hhead⟩
      · obtain ⟨x, hx, hstep⟩ := ih hy
        exact ⟨x, List.mem_cons_of_mem _ hx, hstep⟩

theorem exists_of_mapM_error {f : α → Outcome β} {xs : List α} {e : Failure}
    (h : xs.mapM f = .error e) : ∃ x ∈ xs, f x = .error e := by
  induction xs with
  | nil => cases h
  | cons x xs ih =>
      rw [List.mapM_cons] at h
      rcases bind_eq_error_iff.mp h with hhead | ⟨y, -, hrest⟩
      · exact ⟨x, List.mem_cons_self, hhead⟩
      rcases bind_eq_error_iff.mp hrest with htail | ⟨ys, -, hdone⟩
      · obtain ⟨x', hx', hfail⟩ := ih htail
        exact ⟨x', List.mem_cons_of_mem x hx', hfail⟩
      · cases hdone

/-- When the steps can only be refused as one kind, one that is makes the whole request refused
as it. -/
theorem mapM_refused {kind : FaultKind} {f : α → Outcome β} {xs : List α} {x : α} (hx : x ∈ xs)
    (hrefused : (f x).RefusedAs kind)
    (h : ∀ x ∈ xs, (∃ y, f x = .ok y) ∨ (f x).RefusedAs kind) : (xs.mapM f).RefusedAs kind := by
  induction xs with
  | nil => cases hx
  | cons a xs ih =>
      obtain ⟨ha, hxs⟩ := List.forall_mem_cons.mp h
      rw [List.mapM_cons]
      rcases ha with ⟨y, hy⟩ | hfirst
      · have hrest : x ∈ xs := by
          rcases List.mem_cons.mp hx with rfl | hrest
          · obtain ⟨fault, -, heq⟩ := hrefused
            cases hy.symm.trans heq
          · exact hrest
        rw [hy, ok_bind]
        exact (ih hrest hxs).bind _
      · exact hfirst.bind _

theorem forM_cons (f : α → Outcome Unit) (x : α) (xs : List α) :
    (x :: xs).forM f = f x >>= fun _ => xs.forM f :=
  rfl

theorem forM_eq_ok_iff {f : α → Outcome Unit} {xs : List α} :
    xs.forM f = .ok () ↔ ∀ x ∈ xs, f x = .ok () := by
  induction xs with
  | nil => exact iff_of_true rfl (List.forall_mem_nil _)
  | cons x xs ih =>
      rw [forM_cons, bind_eq_ok_iff, List.forall_mem_cons, ih]
      exact ⟨fun ⟨_, hx, hrest⟩ => ⟨hx, hrest⟩, fun ⟨hx, hrest⟩ => ⟨_, hx, hrest⟩⟩

/-- Steps that each take the result of a request of their own, once all these results are known. -/
theorem foldlM_of_forall₂ {γ : Type} {f : α → Outcome β} {step : γ → β → Outcome γ} {xs : List α}
    {ys : List β} (h : List.Forall₂ (fun x y => f x = .ok y) xs ys) (c : γ) :
    xs.foldlM (fun c x => do step c (← f x)) c = ys.foldlM step c := by
  induction h generalizing c with
  | nil => rfl
  | cons hy _ ih =>
      rw [List.foldlM_cons, List.foldlM_cons, hy, ok_bind]
      cases step c _ with
      | error e => rfl
      | ok c' => exact ih c'

/-! ### The first failure -/

/-- The element `x` is the first of a list at which a request fails, and fails for `e`. -/
def FailsFirst (f : α → Outcome β) (xs : List α) (x : α) (e : Failure) : Prop :=
  ∃ before after, xs = before ++ x :: after ∧ (∀ y ∈ before, ∃ b, f y = .ok b) ∧ f x = .error e

variable {f : α → Outcome β} {xs : List α} {x : α} {e : Failure}

theorem FailsFirst.mem (h : FailsFirst f xs x e) : x ∈ xs := by
  obtain ⟨before, after, rfl, -, -⟩ := h
  exact List.mem_append_right before List.mem_cons_self

theorem FailsFirst.error (h : FailsFirst f xs x e) : f x = .error e := by
  obtain ⟨-, -, -, -, hx⟩ := h
  exact hx

/-- A request succeeds at every element of a list, or it fails at some element first. -/
theorem forall_or_failsFirst (f : α → Outcome β) (xs : List α) :
    (∀ x ∈ xs, ∃ y, f x = .ok y) ∨ ∃ x e, FailsFirst f xs x e := by
  induction xs with
  | nil => exact .inl (List.forall_mem_nil _)
  | cons x xs ih =>
      cases hx : f x with
      | error e => exact .inr ⟨x, e, [], xs, rfl, List.forall_mem_nil _, hx⟩
      | ok y =>
          rcases ih with hall | ⟨x', e, before, after, rfl, hbefore, hx'⟩
          · exact .inl (List.forall_mem_cons.mpr ⟨⟨y, hx⟩, hall⟩)
          · exact .inr ⟨x', e, x :: before, after, rfl,
              List.forall_mem_cons.mpr ⟨⟨y, hx⟩, hbefore⟩, hx'⟩

theorem exists_failsFirst (hx : x ∈ xs) (he : f x = .error e) :
    ∃ x' e', FailsFirst f xs x' e' := by
  rcases forall_or_failsFirst f xs with hall | hfirst
  · obtain ⟨y, hy⟩ := hall x hx
    cases hy.symm.trans he
  · exact hfirst

theorem FailsFirst.mapM (h : FailsFirst f xs x e) : xs.mapM f = .error e := by
  obtain ⟨before, after, rfl, hbefore, hx⟩ := h
  induction before with
  | nil => rw [List.nil_append, List.mapM_cons, hx, error_bind]
  | cons y before ih =>
      obtain ⟨⟨b, hy⟩, hrest⟩ := List.forall_mem_cons.mp hbefore
      rw [List.cons_append, List.mapM_cons, hy, ok_bind, ih hrest, error_bind]

theorem FailsFirst.forM {f : α → Outcome Unit} (h : FailsFirst f xs x e) :
    xs.forM f = .error e := by
  obtain ⟨before, after, rfl, hbefore, hx⟩ := h
  induction before with
  | nil => rw [List.nil_append, forM_cons, hx, error_bind]
  | cons y before ih =>
      obtain ⟨⟨⟨⟩, hy⟩, hrest⟩ := List.forall_mem_cons.mp hbefore
      rw [List.cons_append, forM_cons, hy, ok_bind, ih hrest]

/-- Where each element comes with its position, the first failure has all earlier positions before
it. -/
theorem FailsFirst.of_zipIdx {f : α × Nat → Outcome β} {k : Nat}
    (h : FailsFirst f xs.zipIdx (x, k) e) :
    xs[k]? = some x ∧ ∀ i, i < k → ∀ y, xs[i]? = some y → ∃ b, f (y, i) = .ok b := by
  obtain ⟨before, after, hsplit, hbefore, -⟩ := h
  have hzip {i : Nat} {y : α} (hy : xs[i]? = some y) : xs.zipIdx[i]? = some (y, i) := by
    rw [List.getElem?_zipIdx, hy, Nat.zero_add]
    rfl
  have hat : xs.zipIdx[before.length]? = some (x, k) := by
    rw [hsplit, List.getElem?_append_right (Nat.le_refl _), Nat.sub_self, List.getElem?_cons_zero]
  obtain ⟨x', hx', heq⟩ := Option.map_eq_some_iff.mp (List.getElem?_zipIdx.symm.trans hat)
  rw [Nat.zero_add] at heq
  cases heq
  refine ⟨hx', fun i hi y hy => hbefore _ ?_⟩
  have hmem := hzip hy
  rw [hsplit, List.getElem?_append_left hi] at hmem
  exact List.mem_of_getElem? hmem

/-- Steps that cannot fail themselves go on until a request for their input fails. -/
theorem FailsFirst.foldlM {γ : Type} {step : γ → β → Outcome γ} (h : FailsFirst f xs x e)
    (hstep : ∀ c, ∀ y ∈ xs, ∀ b, f y = .ok b → ∃ c', step c b = .ok c') (c : γ) :
    xs.foldlM (fun c x => do step c (← f x)) c = .error e := by
  obtain ⟨before, after, rfl, hbefore, hx⟩ := h
  induction before generalizing c with
  | nil => rw [List.nil_append, List.foldlM_cons, hx, error_bind, error_bind]
  | cons y before ih =>
      obtain ⟨⟨b, hy⟩, hrest⟩ := List.forall_mem_cons.mp hbefore
      obtain ⟨c', hc'⟩ := hstep c y List.mem_cons_self b hy
      rw [List.cons_append, List.foldlM_cons, hy, ok_bind, hc', ok_bind]
      exact ih c' (fun c z hz => hstep c z (List.mem_cons_of_mem y hz)) hrest

theorem FailsFirst.map {γ : Type} {g : γ → α} {as : List γ} {a : γ}
    (h : FailsFirst (fun a => f (g a)) as a e) : FailsFirst f (as.map g) (g a) e := by
  obtain ⟨before, after, rfl, hbefore, ha⟩ := h
  exact ⟨before.map g, after.map g, by simp, List.forall_mem_map.mpr hbefore, ha⟩

/-- In a list of blocks, the first failure is that of the first block with a failure. -/
theorem FailsFirst.of_blocks {γ : Type} {block : γ → List α} {before after : List γ} {c : γ}
    (h : FailsFirst f (block c) x e)
    (hbefore : ∀ b ∈ before, ∀ y ∈ block b, ∃ z, f y = .ok z) :
    FailsFirst f ((before ++ c :: after).flatMap block) x e := by
  obtain ⟨left, right, hblock, hleft, hx⟩ := h
  refine ⟨before.flatMap block ++ left, right ++ after.flatMap block, ?_, ?_, hx⟩
  · rw [List.flatMap_append, List.flatMap_cons, hblock]
    simp
  · refine List.forall_mem_append.mpr ⟨fun y hy => ?_, hleft⟩
    obtain ⟨b, hb, hy⟩ := List.mem_flatMap.mp hy
    exact hbefore b hb y hy

end LinearProgram.Outcome
