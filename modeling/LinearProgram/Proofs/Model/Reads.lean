import LinearProgram.Proofs.Model.Tables
import LinearProgram.Proofs.Model.Words
import LinearProgram.Proofs.Session
import LinearProgram.Scalar.Double

/-!
Reads along a history. A parameter has one table, whichever handle it is used through. As long as
its dimensions have the sizes that the stores have found, an element reads as what was last stored
at it, by labels or by coordinates; one that no store has met reads as the default that was in force
at the first store, or as the present default when there was no store at all.
-/

namespace LinearProgram

variable {κ : Type}

/-! ### What a store leaves alone -/

namespace Parameter

variable {c : Catalog} {p : Parameter κ} {coords other : List Nat} {n k : Nat} {v : κ}

theorem store_eq (c : Catalog) (coords : List Nat) (v : κ) (p : Parameter κ) :
    (p.store c coords v).2 = { p with values := (p.store c coords v).2.values } := by
  unfold store
  split
  · rfl
  rename_i sizes n _
  dsimp only
  split
  · exact allocate_eq n p
  · rename_i q hwrite
    obtain ⟨o, -, hfound⟩ := Outcome.bind_eq_ok_iff.mp hwrite
    cases o with
    | none => cases hfound
    | some k =>
        rw [← Except.ok.inj hfound]
        dsimp only
        rw [allocate_eq]

theorem storeLabelled_eq (c : Catalog) (labels : List String) (v : κ) (p : Parameter κ) :
    (p.storeLabelled c labels v).2
      = { p with values := (p.storeLabelled c labels v).2.values } := by
  unfold storeLabelled
  split
  · rfl
  · exact store_eq c _ v p

theorem Storable.length_allocate (h : p.Storable c n) : (p.allocate n).values.length = n := by
  cases hpopulated : p.populated with
  | true => rw [allocate_of_populated hpopulated, h.length hpopulated]
  | false => rw [allocate_of_unpopulated hpopulated, filled, List.length_replicate]

/-- A parameter reads as the table that the next store would find or bring. -/
theorem Storable.read_eq (h : p.Storable c n) (hoffset : p.space.offset c coords = .ok k) :
    p.read c coords = .ok ((p.allocate n).values.getD k p.fallback) := by
  cases hpopulated : p.populated with
  | true =>
      rw [allocate_of_populated hpopulated, read_eq_ok_iff hpopulated, h.length hpopulated]
      exact ⟨h.size, k, hoffset, rfl⟩
  | false =>
      obtain ⟨k', hk', hoffset', -⟩ := Space.exists_offset h.size (Space.inRange_of_offset hoffset)
      cases hoffset.symm.trans hoffset'
      rw [read_of_unpopulated hpopulated, allocate_of_unpopulated hpopulated, filled]
      simp [List.getD_eq_getElem?_getD, hk']

/-- A store that is carried out is noticed at its own element only, also if it brings the table. -/
theorem read_store_of_ne (hstore : (p.store c coords v).1 = .ok ())
    (hrange : p.space.InRange c other) (hne : coords ≠ other) :
    (p.store c coords v).2.read c other = p.read c other := by
  obtain ⟨n, k, hn, hk, hresult⟩ := store_eq_ok hstore
  obtain ⟨i, hi, hoffset, -⟩ := Space.exists_offset hn.size hrange
  have hki : k ≠ i := by
    rintro rfl
    exact hne (Space.offset_injective hn.size hk hoffset)
  have hlength : ((p.allocate n).values.set k v).length = n := by
    rw [List.length_set, hn.length_allocate]
  have hn' : (p.store c coords v).2.Storable c n := by
    rw [hresult]
    exact ⟨hn.frozen, hn.size, fun _ => hlength⟩
  have hallocate : (p.store c coords v).2.allocate n = (p.store c coords v).2 := by
    rw [hresult, allocate, if_pos]
    rw [populated, Bool.not_eq_true', List.isEmpty_eq_false_iff, ← List.length_pos_iff, hlength]
    omega
  have hoffset' : (p.store c coords v).2.space.offset c other = .ok i := by
    rw [store_eq]
    exact hoffset
  rw [hn'.read_eq hoffset', hn.read_eq hoffset, hallocate, hresult]
  simp only [List.getD_eq_getElem?_getD, List.getElem?_set_ne hki]

end Parameter

namespace Model

variable {m : Model κ} {a : Action κ} {slot : Nat} {p : Parameter κ} {coords : List Nat}

/-! ### Labels along a history -/

theorem extends_perform (m : Model κ) (a : Action κ) :
    m.catalog.Extends (m.perform a).2.catalog := by
  have hstep := m.perform_layoutStep a
  generalize (m.perform a).2 = m' at hstep ⊢
  cases hstep with
  | keep hsame => exact hsame.catalog.extends
  | limit hset => exact Catalog.extends_setLimit hset
  | declare => exact .refl _
  | place => exact .refl _
  | sealUp =>
      obtain ⟨frozen, heq⟩ := m.sealUp_catalog
      rw [heq]
      exact .refl _

theorem extends_run (m : Model κ) (history : List (Action κ)) :
    m.catalog.Extends (m.run history).catalog :=
  run_invariant (P := fun m' => m.catalog.Extends m'.catalog)
    (fun m' a _ h => h.trans (m'.extends_perform a)) (.refl _)

/-- A step of a history is a request that meets what the requests before it have made. -/
theorem exists_split_of_trace {history : List (Action κ)}
    {before after : List (Model κ × Action κ)} {step : Model κ × Action κ}
    (h : m.trace history = before ++ step :: after) :
    ∃ earlier later, history = earlier ++ step.2 :: later ∧ before = m.trace earlier
      ∧ step.1 = m.run earlier := by
  induction history generalizing m before with
  | nil => simp [trace] at h
  | cons a history ih =>
      rw [trace] at h
      cases before with
      | nil =>
          obtain ⟨rfl, -⟩ := List.cons.inj h
          exact ⟨[], history, rfl, rfl, rfl⟩
      | cons first before =>
          obtain ⟨rfl, hrest⟩ := List.cons.inj h
          obtain ⟨earlier, later, rfl, rfl, hstep⟩ := ih hrest
          exact ⟨a :: earlier, later, rfl, rfl, hstep⟩

theorem extends_of_mem_trace {history : List (Action κ)} {step : Model κ × Action κ}
    (h : step ∈ m.trace history) : step.1.catalog.Extends (m.run history).catalog := by
  obtain ⟨before, after, hsplit⟩ := List.append_of_mem h
  obtain ⟨earlier, later, rfl, -, hstep⟩ := exists_split_of_trace hsplit
  rw [run_append, ← hstep]
  exact extends_run _ _

/-! ### The default in force -/

/-- The default that a request gives to a parameter, by declaring it or by setting another. -/
def defaultGiven? (slot : Nat) : Model κ × Action κ → Option κ
  | (m, .declareParameter _ _ _ fallback) =>
    if m.parameters.length = slot then some fallback else none
  | (m, .setDefault s v) => if s = slot ∧ s < m.parameters.length then some v else none
  | _ => none

/-- The default that a parameter has been given last. -/
def inForce? (slot : Nat) (steps : List (Model κ × Action κ)) : Option κ :=
  (steps.filterMap (defaultGiven? slot)).getLast?

/-- Requests other than declarations and new defaults leave all defaults alone. -/
theorem TableStep.fallback {ps : List (Parameter κ)} (h : m.TableStep a ps)
    (hdeclare : ∀ name space domain fallback, a ≠ .declareParameter name space domain fallback)
    (hdefault : ∀ s v, a ≠ .setDefault s v) :
    ps[slot]?.map (·.fallback) = m.parameters[slot]?.map (·.fallback) := by
  have hset {s : Nat} {p q : Parameter κ} (hp : m.parameters[s]? = some p)
      (hq : q.fallback = p.fallback) :
      (m.parameters.set s q)[slot]?.map (·.fallback) = m.parameters[slot]?.map (·.fallback) := by
    by_cases hslot : s = slot
    · subst hslot
      rw [List.getElem?_set_self (List.getElem?_eq_some_iff.mp hp).1, hp, Option.map_some,
        Option.map_some, hq]
    · rw [List.getElem?_set_ne hslot]
  cases h with
  | keep => rfl
  | declare => exact absurd rfl (hdeclare _ _ _ _)
  | setDefault => exact absurd rfl (hdefault _ _)
  | store hp => exact hset hp (by rw [Parameter.store_eq])
  | storeLabelled hp => exact hset hp (by rw [Parameter.storeLabelled_eq])

theorem fallback_perform (m : Model κ) (a : Action κ) (slot : Nat) :
    (m.perform a).2.parameters[slot]?.map (·.fallback)
      = (defaultGiven? slot (m, a)).or (m.parameters[slot]?.map (·.fallback)) := by
  cases a with
  | declareParameter name space domain fallback =>
      rw [perform, declareParameter, defaultGiven?]
      dsimp only
      split
      · rename_i hlast
        subst hlast
        rw [List.getElem?_concat_length]
        rfl
      · rename_i hother
        rw [List.getElem?_append, Option.none_or]
        split
        · rfl
        · rename_i hbeyond
          rw [List.getElem?_eq_none (by simp; omega), List.getElem?_eq_none (by omega)]
  | setDefault s v =>
      rw [perform, Model.setDefault, defaultGiven?, parameter]
      cases hs : m.parameters[s]? with
      | none =>
          have hbeyond := List.getElem?_eq_none_iff.mp hs
          rw [if_neg (by omega), Option.none_or]
          rfl
      | some p =>
          have hlt := (List.getElem?_eq_some_iff.mp hs).1
          change (m.parameters.set s (p.setDefault v))[slot]?.map _ = _
          by_cases hslot : s = slot
          · subst hslot
            rw [List.getElem?_set_self hlt, if_pos ⟨rfl, hlt⟩]
            rfl
          · rw [List.getElem?_set_ne hslot, if_neg (fun h => hslot h.1), Option.none_or]
  | _ =>
      rw [defaultGiven?, Option.none_or]
      · exact (m.perform_tableStep _).fallback (by simp) (by simp)
      all_goals simp

/-- The default of a parameter is the one that it has been given last. -/
theorem fallback_run (hempty : m.parameters = []) (history : List (Action κ)) (slot : Nat) :
    (m.run history).parameters[slot]?.map (·.fallback) = inForce? slot (m.trace history) := by
  induction history using List.reverseRecOn with
  | nil =>
      rw [run, List.foldl_nil, hempty]
      rfl
  | append_singleton history a ih =>
      rw [trace_append_singleton, inForce?, getLast?_filterMap_append, run_append]
      exact (fallback_perform _ a slot).trans (by rw [ih, inForce?])

/-- What counts at the first store is the default in force before it. -/
theorem firstDefault?_eq (hempty : m.parameters = []) {history : List (Action κ)}
    {before after : List (Model κ × Action κ)} {first : Model κ × Action κ}
    (hsplit : m.trace history = before ++ first :: after)
    (hbefore : ∀ step ∈ before, step.2.storesInto slot = false)
    (hfirst : first.2.storesInto slot = true) :
    firstDefault? slot (m.trace history) = inForce? slot before := by
  obtain ⟨earlier, later, -, rfl, hmodel⟩ := exists_split_of_trace hsplit
  have hnone : (m.trace earlier).find? (·.2.storesInto slot) = none := by simpa using hbefore
  rw [firstDefault?, hsplit, List.find?_append, hnone, Option.none_or,
    List.find?_cons_of_pos (by exact hfirst), Option.bind_some, hmodel, fallback_run hempty]

/-! ### What is read -/

/-- A dimension with known and equal sizes has equal members. -/
theorem agree_of_mem_trace {history : List (Action κ)} {step : Model κ × Action κ} {space : Space}
    (hstep : step ∈ m.trace history) (hrange : space.InRange (m.run history).catalog coords)
    (hsizes : ∀ d ∈ space, step.1.catalog.size d = (m.run history).catalog.size d) :
    space.Agree step.1.catalog (m.run history).catalog := by
  have hextends := extends_of_mem_trace hstep
  induction hrange with
  | nil =>
      intro d hd
      cases hd
  | cons hi _ ih =>
      obtain ⟨hd, hrest⟩ := List.forall_mem_cons.mp hsizes
      obtain ⟨n, hn, -⟩ := hi
      exact List.forall_mem_cons.mpr ⟨hextends.agree (hd.trans hn) hn, ih hrest⟩

theorem catalog_of_storesInto (h : a.storesInto slot = true) :
    (m.perform a).2.catalog = m.catalog := by
  cases a with
  | store s coords v => exact (SameData.storeBy s (Parameter.store m.catalog coords v) m).catalog
  | storeLabelled s labels v =>
      exact (SameData.storeBy s (Parameter.storeLabelled m.catalog labels v) m).catalog
  | _ => cases h

variable [Scalar κ]

/-- Let all stores into a parameter be carried out on dimensions of the sizes that they have in the
end. Then every element in range can be read. It reads as the value that was last stored at it; if
there is none, as the default in force at the first store into the parameter; and if there was no
store, as the default in force. A further store that is carried out changes nothing about the
elements that it does not name. All handles on a parameter, clones included, are its place in the
model, so requests and reads may come through any of them. -/
theorem read_of_stores (name : Option String) {history : List (Action κ)} {m : Model κ}
    (hm : (Model.empty name).run history = m) {slot : Nat} {p : Parameter κ}
    (hp : m.parameter slot = .ok p)
    (hstores : ∀ step ∈ (Model.empty name).trace history, step.2.storesInto slot = true →
      (step.1.perform step.2).1 = .ok []
        ∧ ∀ d ∈ p.space, step.1.catalog.size d = m.catalog.size d)
    {s : Session κ} {k : Nat} (hs : s.model k = .ok m) {coords : List Nat}
    (hrange : p.space.InRange m.catalog coords) :
    let steps := (Model.empty name).trace history
    (∀ v, lastStored? slot p.space coords steps = some v → s.read ⟨k, slot⟩ coords = .ok v)
      ∧ (lastStored? slot p.space coords steps = none →
        ∀ before first after, steps = before ++ first :: after →
          (∀ step ∈ before, step.2.storesInto slot = false) →
          first.2.storesInto slot = true →
          ∃ d, inForce? slot before = some d ∧ s.read ⟨k, slot⟩ coords = .ok d)
      ∧ ((∀ step ∈ steps, step.2.storesInto slot = false) →
        ∃ d, inForce? slot steps = some d ∧ s.read ⟨k, slot⟩ coords = .ok d)
      ∧ ∀ a : Action κ, a.storesInto slot = true → (s.perform k a).1 = .ok [] →
        storedAt? slot p.space coords (m, a) = none →
        (s.perform k a).2.read ⟨k, slot⟩ coords = s.read ⟨k, slot⟩ coords := by
  intro steps
  subst hm
  have hp' := parameter_eq_ok_iff.mp hp
  have hloaded := (tracked_run rfl fun step hstep hstore =>
    ⟨(hstores step hstep hstore).1,
      agree_of_mem_trace hstep hrange (hstores step hstep hstore).2⟩).loaded p hp' rfl
  have hread : s.read ⟨k, slot⟩ coords = .ok (loaded slot p steps coords) := by
    rw [Session.read_of_model hs hp]
    exact hloaded.read_of_inRange hrange
  refine ⟨fun v hv => ?_, fun hnone before first after hsplit hbefore hfirst => ?_,
    fun hnone => ?_, fun a ha hdone hother => ?_⟩
  · rw [hread, loaded, hv]
    rfl
  · obtain ⟨hok, -⟩ := hstores first (by simp [steps, hsplit]) hfirst
    obtain ⟨q, -, -, hq, -⟩ := store_of_storesInto hfirst hok
    obtain ⟨earlier, later, -, rfl, hmodel⟩ := exists_split_of_trace hsplit
    have hdefault : inForce? slot ((Model.empty name).trace earlier) = some q.fallback := by
      rw [← fallback_run rfl, ← hmodel, hq, Option.map_some]
    refine ⟨q.fallback, hdefault, ?_⟩
    rw [hread, loaded, hnone, firstDefault?_eq rfl hsplit hbefore hfirst, hdefault]
    rfl
  · have hfind : steps.find? (·.2.storesInto slot) = none := by simpa using hnone
    refine ⟨p.fallback, ?_, ?_⟩
    · rw [← fallback_run rfl, hp', Option.map_some]
    · rw [hread, loaded, lastStored?_of_none hnone, firstDefault?, hfind]
      rfl
  · rw [Session.perform_fst hs] at hdone
    obtain ⟨q, coords', v, hq, hstore, hresult, hstored⟩ := store_of_storesInto ha hdone
    obtain rfl := Option.some.inj (hp'.symm.trans hq)
    rw [hstored] at hother
    have hne : coords' ≠ coords := by
      rintro rfl
      rw [if_pos rfl] at hother
      cases hother
    have hafter : (((Model.empty name).run history).perform a).2.parameter slot
        = .ok (p.store ((Model.empty name).run history).catalog coords' v).2 := by
      rw [parameter_eq_ok_iff, hresult]
      exact List.getElem?_set_self (List.getElem?_eq_some_iff.mp hp').1
    rw [Session.read_of_model (Session.model_perform hs a) hafter, catalog_of_storesInto ha,
      Session.read_of_model hs hp]
    exact Parameter.read_store_of_ne hstore hrange hne

/-- A table over a set and a range, stored into by labels and by coordinates, with a new default
before the first store and another one after it. -/
def mixedStores : List (Action Float) :=
  [.addLabels ⟨"A", .labelled⟩ ["a", "b"],
    .setLimit "T" 4,
    .declareParameter (some "p") [⟨"A", .labelled⟩, ⟨"R", .range 3 (.limit "T")⟩] .free 5,
    .setDefault 0 1,
    .storeLabelled 0 ["b", "4"] 2,
    .setDefault 0 7,
    .store 0 [0, 1] 3,
    .store 0 [1, 1] 9]

/-- What these requests make of the parameter. -/
def mixedTable : Parameter Float :=
  ⟨"p", [⟨"A", .labelled⟩, ⟨"R", .range 3 (.limit "T")⟩], .free, 7, [1, 3, 1, 9]⟩

theorem read_of_mixedStores :
    let m := (Model.empty none).run mixedStores
    let s := Session.mk [m] []
    let steps := (Model.empty none).trace mixedStores
    m.parameter 0 = .ok mixedTable ∧ s.model 0 = .ok m
      ∧ (∀ step ∈ steps, step.2.storesInto 0 = true →
        (step.1.perform step.2).1 = .ok []
          ∧ ∀ d ∈ mixedTable.space, step.1.catalog.size d = m.catalog.size d)
      ∧ mixedTable.space.InRange m.catalog [1, 1] ∧ mixedTable.space.InRange m.catalog [1, 0]
      ∧ s.read ⟨0, 0⟩ [1, 1] = .ok 9 ∧ s.read ⟨0, 0⟩ [1, 0] = .ok 1
      ∧ ∀ v, (s.perform 0 (.storeLabelled 0 ["a", "3"] v)).2.read ⟨0, 0⟩ [1, 1] = .ok 9 := by
  intro m s steps
  have hp : m.parameter 0 = .ok mixedTable := rfl
  have hs : s.model 0 = .ok m := rfl
  have hother {m' : Model Float} {a : Action Float} (ha : a.storesInto 0 = false) :
      a.storesInto 0 = true → (m'.perform a).1 = .ok []
        ∧ ∀ d ∈ mixedTable.space, m'.catalog.size d = m.catalog.size d := by
    rw [ha]
    intro h
    cases h
  have hstores : ∀ step ∈ steps, step.2.storesInto 0 = true → (step.1.perform step.2).1 = .ok []
      ∧ ∀ d ∈ mixedTable.space, step.1.catalog.size d = m.catalog.size d := by
    simp only [steps, mixedStores, trace, List.forall_mem_cons]
    exact ⟨hother rfl, hother rfl, hother rfl, hother rfl, fun _ => ⟨rfl, fun _ _ => rfl⟩,
      hother rfl, fun _ => ⟨rfl, fun _ _ => rfl⟩, fun _ => ⟨rfl, fun _ _ => rfl⟩,
      List.forall_mem_nil _⟩
  have hlast : mixedTable.space.InRange m.catalog [1, 1] :=
    .cons ⟨2, rfl, by decide⟩ (.cons ⟨2, rfl, by decide⟩ .nil)
  have hrest : mixedTable.space.InRange m.catalog [1, 0] :=
    .cons ⟨2, rfl, by decide⟩ (.cons ⟨2, rfl, by decide⟩ .nil)
  obtain ⟨hstored, -, -, hkept⟩ := read_of_stores none rfl hp hstores hs hlast
  obtain ⟨-, hdefault, -, -⟩ := read_of_stores none rfl hp hstores hs hrest
  have hread : s.read ⟨0, 0⟩ [1, 1] = .ok 9 := hstored 9 rfl
  refine ⟨hp, hs, hstores, hlast, hrest, hread, ?_, fun v => ?_⟩
  · obtain ⟨d, hd, hd'⟩ := hdefault rfl (steps.take 4) _ _ rfl (by decide) rfl
    rw [hd']
    exact congrArg Except.ok (Option.some.inj hd.symm)
  · rw [← hread]
    exact hkept _ rfl rfl rfl

end Model

end LinearProgram
