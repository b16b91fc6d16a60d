import LinearProgram.Proofs.Model.History
import LinearProgram.Proofs.Parameter
import Mathlib.Data.List.Induction

/-!
Tables along a history. Each request either leaves a parameter's values alone or is a store into it.
When all stores into a parameter have been carried out, on dimensions with the same members, it
reads at each element as the value that was last stored there, else as the default that was in force
at the first store.
-/

namespace LinearProgram

variable {κ : Type}

/-- A store into the given parameter. -/
def Action.storesInto (slot : Nat) : Action κ → Bool
  | .store s _ _ => s = slot
  | .storeLabelled s _ _ => s = slot
  | _ => false

namespace Model

variable {m : Model κ} {a : Action κ} {slot : Nat} {p q : Parameter κ} {coords : List Nat}

/-! ### What a request does to the parameters -/

inductive TableStep (m : Model κ) : Action κ → List (Parameter κ) → Prop
  | keep {a : Action κ} : TableStep m a m.parameters
  | declare {name : Option String} {space : Space} {domain : Domain κ} {fallback : κ}
      {called : String} : TableStep m (.declareParameter name space domain fallback)
        (m.parameters ++ [⟨called, space, domain, fallback, []⟩])
  | setDefault {slot : Nat} {v : κ} {q : Parameter κ} (hq : m.parameters[slot]? = some q) :
      TableStep m (.setDefault slot v) (m.parameters.set slot (q.setDefault v))
  | store {slot : Nat} {coords : List Nat} {v : κ} {q : Parameter κ}
      (hq : m.parameters[slot]? = some q) :
      TableStep m (.store slot coords v)
        (m.parameters.set slot (q.store m.catalog coords v).2)
  | storeLabelled {slot : Nat} {labels : List String} {v : κ} {q : Parameter κ}
      (hq : m.parameters[slot]? = some q) :
      TableStep m (.storeLabelled slot labels v)
        (m.parameters.set slot (q.storeLabelled m.catalog labels v).2)

theorem parameter_eq_ok_iff : m.parameter slot = .ok p ↔ m.parameters[slot]? = some p := by
  unfold parameter
  split
  · rename_i q hq
    rw [hq, Except.ok.injEq, Option.some.injEq]
  · rename_i hnone
    rw [hnone]
    exact iff_of_false (Outcome.refuse_ne_ok _ _) (by simp)

theorem parameters_sealUp (m : Model κ) : m.sealUp.2.parameters = m.parameters := by
  unfold sealUp
  split
  · rfl
  split
  · rfl
  split <;> rfl

theorem parameters_commit {added : List Nat} {o : Outcome (Model κ)}
    (h : ∀ m', o = .ok m' → m'.parameters = m.parameters) :
    (m.commit added o).2.parameters = m.parameters := by
  rcases m.commit_cases added o with hkeep | hdone
  · rw [hkeep]
  · exact h _ hdone

theorem perform_tableStep (m : Model κ) (a : Action κ) :
    m.TableStep a (m.perform a).2.parameters := by
  have hkeep {a : Action κ} (h : (m.perform a).2.parameters = m.parameters) :
      m.TableStep a (m.perform a).2.parameters := by
    rw [h]
    exact .keep
  cases a with
  | addLabels d labels => exact hkeep (parameters_addLabels d labels m)
  | setLimit marker v =>
      refine hkeep (parameters_commit fun m' h => ?_)
      obtain ⟨c, -, rfl⟩ := setLimit_eq_ok h
      rfl
  | declareParameter name space domain fallback => exact .declare
  | setDefault slot v =>
      rcases m.commit_cases [] (m.setDefault slot v) with h | h
      · exact hkeep (by rw [perform, h])
      · obtain ⟨q, hq, heq⟩ := Outcome.bind_eq_ok_iff.mp h
        rw [perform, ← Except.ok.inj heq]
        exact .setDefault (parameter_eq_ok_iff.mp hq)
  | store slot coords v =>
      cases hq : m.parameter slot with
      | error e => exact hkeep (by simp [perform, Model.store, storeBy, hq])
      | ok q =>
          simp only [perform, Model.store, storeBy, hq]
          exact .store (parameter_eq_ok_iff.mp hq)
  | storeLabelled slot labels v =>
      cases hq : m.parameter slot with
      | error e => exact hkeep (by simp [perform, Model.storeLabelled, storeBy, hq])
      | ok q =>
          simp only [perform, Model.storeLabelled, storeBy, hq]
          exact .storeLabelled (parameter_eq_ok_iff.mp hq)
  | declareFamily name space domain =>
      refine hkeep (parameters_commit fun m' h => ?_)
      obtain ⟨-, -, rfl⟩ := declareFamily_eq_ok h
      rfl
  | placeFamily slot start =>
      refine hkeep (parameters_commit fun m' h => ?_)
      obtain ⟨f, -, -, rfl⟩ := placeFamily_eq_ok h
      rfl
  | sealUp => exact hkeep (parameters_sealUp m)
  | constrain name c => exact .keep
  | constrainEach name space body =>
      refine hkeep (parameters_commit fun m' h => ?_)
      obtain ⟨cs, -, heq⟩ := Outcome.bind_eq_ok_iff.mp h
      cases heq
      rfl
  | setObjective name sense e => exact .keep

/-! ### What has been stored -/

/-- The requests of a history, each with the model that it meets. -/
def trace (m : Model κ) : List (Action κ) → List (Model κ × Action κ)
  | [] => []
  | a :: rest => (m, a) :: trace (m.perform a).2 rest

/-- What a request stores at the given coordinates of a parameter over a space. -/
def storedAt? (slot : Nat) (space : Space) (coords : List Nat) : Model κ × Action κ → Option κ
  | (_, .store s coords' v) => if s = slot ∧ coords' = coords then some v else none
  | (m, .storeLabelled s labels v) =>
    if s = slot ∧ space.resolve m.catalog labels = .ok coords then some v else none
  | _ => none

def lastStored? (slot : Nat) (space : Space) (coords : List Nat)
    (steps : List (Model κ × Action κ)) : Option κ :=
  (steps.filterMap (storedAt? slot space coords)).getLast?

/-- The default in force at the first store into a parameter, if there is one. -/
def firstDefault? (slot : Nat) (steps : List (Model κ × Action κ)) : Option κ :=
  (steps.find? (·.2.storesInto slot)).bind fun step =>
    (step.1.parameters[slot]?).map (·.fallback)

/-- The value that has been loaded for an element: the last one stored, else the default at the
first store, else the present default. -/
def loaded (slot : Nat) (p : Parameter κ) (steps : List (Model κ × Action κ))
    (coords : List Nat) : κ :=
  (lastStored? slot p.space coords steps).getD ((firstDefault? slot steps).getD p.fallback)

/-- Of the last two finds the later one counts. -/
theorem getLast?_filterMap_append {α β : Type} (f : α → Option β) (xs : List α) (x : α) :
    ((xs ++ [x]).filterMap f).getLast? = (f x).or (xs.filterMap f).getLast? := by
  rw [List.filterMap_append, List.getLast?_append]
  congr 1
  cases h : f x with
  | none => simp [h]
  | some y => simp [h]

theorem trace_append_singleton (m : Model κ) (history : List (Action κ)) (a : Action κ) :
    m.trace (history ++ [a]) = m.trace history ++ [(m.run history, a)] := by
  induction history generalizing m with
  | nil => rfl
  | cons b history ih => exact congrArg ((m, b) :: ·) (ih _)

theorem storedAt?_of_other {space : Space} (h : a.storesInto slot = false) :
    storedAt? slot space coords (m, a) = none := by
  cases a with
  | store s coords' v => simp_all [storedAt?, Action.storesInto]
  | storeLabelled s labels v => simp_all [storedAt?, Action.storesInto]
  | _ => rfl

section Steps

variable {steps : List (Model κ × Action κ)}

theorem lastStored?_append {space : Space} :
    lastStored? slot space coords (steps ++ [(m, a)])
      = (storedAt? slot space coords (m, a)).or (lastStored? slot space coords steps) :=
  getLast?_filterMap_append _ steps (m, a)

theorem lastStored?_of_none {space : Space}
    (h : ∀ step ∈ steps, step.2.storesInto slot = false) :
    lastStored? slot space coords steps = none := by
  rw [lastStored?, List.getLast?_eq_none_iff, List.filterMap_eq_nil_iff]
  exact fun step hstep => storedAt?_of_other (h step hstep)

theorem firstDefault?_append_of_other (h : a.storesInto slot = false) :
    firstDefault? slot (steps ++ [(m, a)]) = firstDefault? slot steps := by
  simp [firstDefault?, List.find?_append, h]

theorem firstDefault?_append_of_none (hnone : ∀ step ∈ steps, step.2.storesInto slot = false)
    (hp : m.parameters[slot]? = some p) (h : a.storesInto slot = true) :
    firstDefault? slot (steps ++ [(m, a)]) = some p.fallback := by
  have hfind : steps.find? (·.2.storesInto slot) = none := by simpa using hnone
  simp [firstDefault?, List.find?_append, hfind, h, hp]

theorem firstDefault?_append_of_some {d : κ} (h : firstDefault? slot steps = some d) :
    firstDefault? slot (steps ++ [(m, a)]) = some d := by
  obtain ⟨step, hstep, hd⟩ := Option.bind_eq_some_iff.mp h
  simp [firstDefault?, List.find?_append, hstep, hd]

end Steps

/-! ### What a table holds -/

/-- A parameter after the given steps: without values as long as nothing is stored, and then with a
value for each element of its space, which is that of the last store or the first default. -/
inductive LoadedBy (c : Catalog) (slot : Nat) (steps : List (Model κ × Action κ))
    (p : Parameter κ) : Prop
  | untouched (hnone : ∀ step ∈ steps, step.2.storesInto slot = false) (hvalues : p.values = [])
  | table (d : κ) (hfirst : firstDefault? slot steps = some d) (hvalues : p.values ≠ [])
      (hsize : p.space.size c = .ok p.values.length)
      (hvalue : ∀ coords k, p.space.offset c coords = .ok k →
        p.values[k]? = some ((lastStored? slot p.space coords steps).getD d))

namespace LoadedBy

variable {c : Catalog} {steps : List (Model κ × Action κ)} {n k : Nat} {v : κ}

/-- As far as the sizes are known, an element in range has been loaded. -/
theorem read_of_inRange (h : LoadedBy c slot steps p) (hrange : p.space.InRange c coords) :
    p.read c coords = .ok (loaded slot p steps coords) := by
  cases h with
  | untouched hnone hvalues =>
      have hfind : steps.find? (·.2.storesInto slot) = none := by simpa using hnone
      rw [Parameter.read_of_unpopulated (by simp [Parameter.populated, hvalues]), loaded,
        lastStored?_of_none hnone, firstDefault?, hfind]
      rfl
  | table d hfirst hvalues hsize hvalue =>
      have hpopulated : p.populated = true := by simp [Parameter.populated, hvalues]
      obtain ⟨k, -, hoffset, -⟩ := Space.exists_offset hsize hrange
      rw [Parameter.read_eq_ok_iff hpopulated]
      refine ⟨hsize, k, hoffset, ?_⟩
      rw [List.getD_eq_getElem?_getD, hvalue coords k hoffset, loaded, hfirst]
      rfl

theorem read (h : LoadedBy c slot steps p) (hoffset : p.space.offset c coords = .ok k) :
    p.read c coords = .ok (loaded slot p steps coords) :=
  h.read_of_inRange (Space.inRange_of_offset hoffset)

theorem keep (h : LoadedBy c slot steps p) (hother : a.storesInto slot = false)
    (hspace : q.space = p.space) (hvalues : q.values = p.values) :
    LoadedBy c slot (steps ++ [(m, a)]) q := by
  cases h with
  | untouched hnone hempty =>
      refine .untouched ?_ (hvalues.trans hempty)
      exact List.forall_mem_append.mpr ⟨hnone, List.forall_mem_singleton.mpr hother⟩
  | table d hfirst hne hsize hvalue =>
      refine .table d ?_ ?_ ?_ ?_
      · rw [firstDefault?_append_of_other hother, hfirst]
      · rwa [hvalues]
      · rwa [hspace, hvalues]
      · intro coords k hoffset
        rw [hspace] at hoffset ⊢
        rw [hvalues, lastStored?_append, storedAt?_of_other hother, Option.none_or]
        exact hvalue coords k hoffset

/-- A store that is carried out sets its own element and no other. -/
theorem store (h : LoadedBy c slot steps p) (hp : m.parameters[slot]? = some p)
    (hstore : (p.store m.catalog coords v).1 = .ok ()) (hagree : p.space.Agree m.catalog c)
    (ha : a.storesInto slot = true)
    (hstored : ∀ coords', storedAt? slot p.space coords' (m, a)
      = if coords = coords' then some v else none) :
    LoadedBy c slot (steps ++ [(m, a)]) (p.store m.catalog coords v).2 := by
  obtain ⟨n, k, hn, hk, hresult⟩ := Parameter.store_eq_ok hstore
  have hsize : p.space.size c = .ok n := by rw [hagree.size_eq, hn.size]
  have hoffset : p.space.offset c coords = .ok k := by rw [hagree.offset_eq, hk]
  have hbelow {coords' : List Nat} {i : Nat} (hi : p.space.offset c coords' = .ok i) : i < n := by
    obtain ⟨j, hj, hoffset', -⟩ := Space.exists_offset hsize (Space.inRange_of_offset hi)
    cases hi.symm.trans hoffset'
    exact hj
  obtain ⟨d, hfirst, hlength, hbefore⟩ : ∃ d, firstDefault? slot (steps ++ [(m, a)]) = some d
      ∧ (p.allocate n).values.length = n
      ∧ ∀ coords' i, p.space.offset c coords' = .ok i →
        (p.allocate n).values[i]? = some ((lastStored? slot p.space coords' steps).getD d) := by
    cases h with
    | untouched hnone hvalues =>
        have hpopulated : p.populated = false := by simp [Parameter.populated, hvalues]
        have hallocate := Parameter.allocate_of_unpopulated hpopulated n
        refine ⟨p.fallback, firstDefault?_append_of_none hnone hp ha, ?_, fun coords' i hi => ?_⟩
        · rw [hallocate, Parameter.filled, List.length_replicate]
        · rw [hallocate, lastStored?_of_none hnone, Parameter.filled, List.getElem?_replicate,
            if_pos (hbelow hi)]
          rfl
    | table d hfirst hvalues hsize' hvalue =>
        have hpopulated : p.populated = true := by simp [Parameter.populated, hvalues]
        have hallocate := Parameter.allocate_of_populated hpopulated n
        rw [hallocate]
        cases hsize.symm.trans hsize'
        exact ⟨d, firstDefault?_append_of_some hfirst, rfl, hvalue⟩
  have hk' : k < (p.allocate n).values.length := (hbelow hoffset).trans_eq hlength.symm
  rw [hresult]
  refine .table d hfirst ?_ ?_ ?_
  · rw [← List.length_pos_iff, List.length_set]
    omega
  · dsimp only
    rw [List.length_set, hlength]
    exact hsize
  · intro coords' i hi
    dsimp only at hi ⊢
    rw [lastStored?_append, hstored]
    by_cases hsame : coords = coords'
    · subst hsame
      cases hoffset.symm.trans hi
      rw [if_pos rfl, List.getElem?_set_self hk']
      rfl
    · have hne : k ≠ i := by
        rintro rfl
        exact hsame (Space.offset_injective hsize hoffset hi)
      rw [if_neg hsame, List.getElem?_set_ne hne, Option.none_or]
      exact hbefore coords' i hi

end LoadedBy

/-! ### Runs -/

/-- What a request that is no store into a parameter makes of it. -/
inductive Unwritten : Option (Parameter κ) → Option (Parameter κ) → Prop
  | undeclared : Unwritten none none
  | declared {q : Parameter κ} (hvalues : q.values = []) : Unwritten none (some q)
  | kept {p q : Parameter κ} (hspace : q.space = p.space) (hvalues : q.values = p.values) :
      Unwritten (some p) (some q)

theorem Unwritten.refl (o : Option (Parameter κ)) : Unwritten o o := by
  cases o with
  | none => exact .undeclared
  | some p => exact .kept rfl rfl

theorem TableStep.unwritten {ps : List (Parameter κ)} (h : m.TableStep a ps)
    (hother : a.storesInto slot = false) : Unwritten m.parameters[slot]? ps[slot]? := by
  cases h with
  | keep => exact .refl _
  | @declare name space domain fallback called =>
      rcases lt_trichotomy slot m.parameters.length with hlt | rfl | hgt
      · rw [List.getElem?_append_left hlt]
        exact .refl _
      · rw [List.getElem?_concat_length, List.getElem?_eq_none le_rfl]
        exact .declared rfl
      · rw [List.getElem?_eq_none hgt.le, List.getElem?_eq_none]
        · exact .undeclared
        · rw [List.length_append, List.length_singleton]
          omega
  | @setDefault s v q hq =>
      by_cases hslot : s = slot
      · subst hslot
        rw [hq, List.getElem?_set_self (List.getElem?_eq_some_iff.mp hq).1]
        exact .kept rfl rfl
      · rw [List.getElem?_set_ne hslot]
        exact .refl _
  | store hq =>
      rw [List.getElem?_set_ne (by simpa [Action.storesInto] using hother)]
      exact .refl _
  | storeLabelled hq =>
      rw [List.getElem?_set_ne (by simpa [Action.storesInto] using hother)]
      exact .refl _

theorem storeBy_eq_ok {f : Parameter κ → Outcome Unit × Parameter κ}
    (h : (m.storeBy slot f).1 = .ok ()) :
    ∃ q, m.parameters[slot]? = some q ∧ (f q).1 = .ok ()
      ∧ (m.storeBy slot f).2.parameters = m.parameters.set slot (f q).2 := by
  unfold storeBy at h ⊢
  split at h
  · cases h
  rename_i q hq
  exact ⟨q, parameter_eq_ok_iff.mp hq, h, rfl⟩

theorem store_of_storesInto (ha : a.storesInto slot = true) (h : (m.perform a).1 = .ok []) :
    ∃ q coords v, m.parameters[slot]? = some q ∧ (q.store m.catalog coords v).1 = .ok ()
      ∧ (m.perform a).2.parameters = m.parameters.set slot (q.store m.catalog coords v).2
      ∧ ∀ coords', storedAt? slot q.space coords' (m, a)
        = if coords = coords' then some v else none := by
  have hdone {o : Outcome Unit × Model κ} (h : (o.map (·.map fun _ => ([] : List Nat)) id).1
      = .ok []) : o.1 = .ok () := by
    obtain ⟨⟨e⟩ | ⟨⟩, m'⟩ := o
    · cases h
    · rfl
  cases a with
  | store s coords v =>
      obtain rfl : s = slot := by simpa [Action.storesInto] using ha
      obtain ⟨q, hq, hstored, hresult⟩ := storeBy_eq_ok (hdone h)
      exact ⟨q, coords, v, hq, hstored, hresult, fun coords' => by simp [storedAt?]⟩
  | storeLabelled s labels v =>
      obtain rfl : s = slot := by simpa [Action.storesInto] using ha
      obtain ⟨q, hq, hstored, hresult⟩ :=
        storeBy_eq_ok (f := Parameter.storeLabelled m.catalog labels v) (hdone h)
      obtain ⟨coords, hresolve, heq⟩ := Parameter.storeLabelled_eq_ok hstored
      rw [heq] at hstored hresult
      exact ⟨q, coords, v, hq, hstored, hresult, fun coords' => by simp [storedAt?, hresolve]⟩
  | _ => cases ha

/-- What the steps so far have made of a parameter over the given space. -/
structure Tracked (c : Catalog) (space : Space) (slot : Nat) (steps : List (Model κ × Action κ))
    (m : Model κ) : Prop where
  loaded : ∀ p, m.parameters[slot]? = some p → p.space = space → LoadedBy c slot steps p
  undeclared : m.parameters[slot]? = none → ∀ step ∈ steps, step.2.storesInto slot = false

theorem Tracked.perform {c : Catalog} {space : Space} {steps : List (Model κ × Action κ)}
    (h : Tracked c space slot steps m)
    (hstore : a.storesInto slot = true →
      (m.perform a).1 = .ok [] ∧ space.Agree m.catalog c) :
    Tracked c space slot (steps ++ [(m, a)]) (m.perform a).2 := by
  cases ha : a.storesInto slot with
  | true =>
      obtain ⟨hok, hagree⟩ := hstore ha
      obtain ⟨q, coords, v, hq, hdone, hresult, hstored⟩ := store_of_storesInto ha hok
      have hafter : (m.perform a).2.parameters[slot]? = some (q.store m.catalog coords v).2 := by
        rw [hresult, List.getElem?_set_self (List.getElem?_eq_some_iff.mp hq).1]
      obtain ⟨n, k, -, -, hkept⟩ := Parameter.store_eq_ok hdone
      constructor
      · intro p hp hspace
        obtain rfl := Option.some.inj (hafter.symm.trans hp)
        have hspace' : q.space = space := by
          rw [← hspace, hkept]
        subst hspace'
        exact (h.loaded q hq rfl).store hq hdone hagree ha hstored
      · intro hnone
        rw [hafter] at hnone
        cases hnone
  | false =>
      have hunwritten := (m.perform_tableStep a).unwritten ha
      have hnone : m.parameters[slot]? = none →
          ∀ step ∈ steps ++ [(m, a)], step.2.storesInto slot = false := by
        intro hnone
        exact List.forall_mem_append.mpr
          ⟨h.undeclared hnone, List.forall_mem_singleton.mpr ha⟩
      constructor
      · intro q hq hspace
        rw [hq] at hunwritten
        generalize hp : m.parameters[slot]? = o at hunwritten
        cases hunwritten with
        | declared hvalues => exact .untouched (hnone hp) hvalues
        | @kept p _ hspace' hvalues =>
            exact (h.loaded p hp (hspace'.symm.trans hspace)).keep ha hspace' hvalues
      · intro hafter
        rw [hafter] at hunwritten
        generalize hp : m.parameters[slot]? = o at hunwritten
        cases hunwritten with
        | undeclared => exact hnone hp

/-- Along a history that carries out all its stores into a parameter, on dimensions with the same
members, the steps so far have loaded the parameter. -/
theorem tracked_run {history : List (Action κ)} {space : Space} {c : Catalog}
    (hempty : m.parameters = [])
    (hstores : ∀ step ∈ m.trace history, step.2.storesInto slot = true →
      (step.1.perform step.2).1 = .ok [] ∧ space.Agree step.1.catalog c) :
    Tracked c space slot (m.trace history) (m.run history) := by
  induction history using List.reverseRecOn with
  | nil =>
      constructor
      · intro p hp
        rw [run, List.foldl_nil, hempty] at hp
        cases hp
      · intro _ step hstep
        cases hstep
  | append_singleton history a ih =>
      rw [trace_append_singleton] at hstores ⊢
      obtain ⟨hbefore, hlast⟩ := List.forall_mem_append.mp hstores
      rw [run_append]
      exact (ih hbefore).perform (List.forall_mem_singleton.mp hlast)

end Model

end LinearProgram
