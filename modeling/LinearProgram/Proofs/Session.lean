import LinearProgram.Proofs.Model.History
import LinearProgram.Session

/-!
Requests on one of several models. They change that model as they would change it alone, and leave
the other models as they are; a request that leaves its model as it was leaves no trace at all.
-/

namespace LinearProgram

variable {κ : Type}

theorem Model.sealReport_self (m : Model κ) : m.sealReport m = [] := by
  rw [sealReport, if_pos rfl, List.append_nil, List.filterMap_eq_nil_iff]
  rintro ⟨f, g⟩ hmem
  obtain ⟨i, hi⟩ := List.mem_iff_getElem?.mp hmem
  rw [List.getElem?_zip_eq_some] at hi
  obtain rfl : f = g := Option.some.inj (hi.1.symm.trans hi.2)
  cases hstart : f.start with
  | none => simp [hstart]
  | some start => simp [hstart]

namespace Session

variable {s : Session κ} {m : Model κ} {k k' : Nat} {a : Action κ}

/-- A session after a history of one of its models. -/
def run (k : Nat) (history : List (Action κ)) (s : Session κ) : Session κ :=
  history.foldl (fun s a => (s.perform k a).2) s

theorem model_eq_ok_iff : s.model k = .ok m ↔ s.models[k]? = some m := by
  unfold model
  split
  · rename_i m' hm'
    rw [hm', Except.ok.injEq, Option.some.injEq]
  · rename_i hnone
    rw [hnone]
    exact iff_of_false (Outcome.refuse_ne_ok _ _) (by simp)

theorem read_of_model [Scalar κ] {slot : Nat} {p : Parameter κ} (hm : s.model k = .ok m)
    (hp : m.parameter slot = .ok p) (coords : List Nat) :
    s.read ⟨k, slot⟩ coords = p.read m.catalog coords := by
  simp only [read, hm, hp, Outcome.ok_bind]

theorem read_congr [Scalar κ] {s' : Session κ} {ref : ParameterRef}
    (h : s'.model ref.model = s.model ref.model) (coords : List Nat) :
    s'.read ref coords = s.read ref coords := by
  rw [read, read, h]

theorem perform_of_unchanged {o : Outcome (List Nat)} (hm : s.model k = .ok m)
    (h : m.perform a = (o, m)) : s.perform k a = (o, s) := by
  have hmodels : s.models.set k m = s.models := by
    obtain ⟨hk, rfl⟩ := List.getElem?_eq_some_iff.mp (model_eq_ok_iff.mp hm)
    exact List.set_getElem_self hk
  have hlog : s.report [] = s := by rw [report, List.append_nil]
  rw [perform, hm]
  dsimp only
  rw [h]
  dsimp only
  rw [hmodels]
  -- only sealing reports, and it reports differences
  cases a with
  | sealUp =>
      rw [m.sealReport_self]
      exact congrArg (o, ·) hlog
  | _ => exact congrArg (o, ·) hlog

theorem perform_fst (hm : s.model k = .ok m) (a : Action κ) :
    (s.perform k a).1 = (m.perform a).1 := by
  rw [perform, hm]

theorem models_perform (hm : s.model k = .ok m) (a : Action κ) :
    (s.perform k a).2.models = s.models.set k (m.perform a).2 := by
  rw [perform, hm]
  rfl

theorem model_perform (hm : s.model k = .ok m) (a : Action κ) :
    (s.perform k a).2.model k = .ok (m.perform a).2 := by
  rw [model_eq_ok_iff] at hm ⊢
  rw [models_perform (model_eq_ok_iff.mpr hm)]
  exact List.getElem?_set_self (List.getElem?_eq_some_iff.mp hm).1

theorem model_perform_of_ne (h : k' ≠ k) (a : Action κ) :
    (s.perform k a).2.model k' = s.model k' := by
  cases hm : s.model k with
  | error e => rw [perform, hm]
  | ok m => rw [model, models_perform hm, List.getElem?_set_ne h.symm, model]

theorem model_run (hm : s.model k = .ok m) (history : List (Action κ)) :
    (s.run k history).model k = .ok (m.run history) := by
  induction history generalizing s m with
  | nil => exact hm
  | cons a history ih => exact ih (model_perform hm a)

theorem model_run_of_ne (h : k' ≠ k) (history : List (Action κ)) :
    (s.run k history).model k' = s.model k' := by
  induction history generalizing s with
  | nil => rfl
  | cons a history ih => exact ih.trans (model_perform_of_ne h a)

end Session

end LinearProgram
