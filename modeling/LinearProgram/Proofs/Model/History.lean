import LinearProgram.Model.Action
import LinearProgram.Proofs.Catalog.Growth

/-!
Histories of a model. Each request is put into one of five kinds by what it does to the data that
the layout rests on, and what every kind of step preserves holds after every history.
-/

namespace LinearProgram

variable {κ : Type}

/-- A request that leaves the placing of families to sealing. -/
def Action.Ordinary : Action κ → Prop
  | .placeFamily .. => False
  | _ => True

theorem Family.place_eq_ok {f g : Family κ} {start : Nat} (h : f.place start = .ok g) :
    f.start = none ∧ g = { f with start := some start } := by
  unfold place at h
  split at h
  · cases h
  · rename_i hstart
    cases h
    exact ⟨hstart, rfl⟩

namespace Model

variable {m m' : Model κ}

/-- Two models with the same families, columns and phase, the second with labels that the first
need not have. -/
structure SameLayout (m m' : Model κ) : Prop where
  families : m'.families = m.families
  ends : m'.ends = m.ends
  isSealed : m'.isSealed = m.isSealed
  catalog : m.catalog.Grows m'.catalog

theorem SameLayout.refl (m : Model κ) : m.SameLayout m := ⟨rfl, rfl, rfl, .refl⟩

theorem SameLayout.trans {m'' : Model κ} (h : m.SameLayout m') (h' : m'.SameLayout m'') :
    m.SameLayout m'' :=
  ⟨h'.families.trans h.families, h'.ends.trans h.ends, h'.isSealed.trans h.isSealed,
    h.catalog.trans h'.catalog⟩

/-- Two models with the same families, columns, phase and index data. -/
structure SameData (m m' : Model κ) : Prop where
  families : m'.families = m.families
  ends : m'.ends = m.ends
  isSealed : m'.isSealed = m.isSealed
  catalog : m'.catalog = m.catalog

theorem SameData.sameLayout (h : m.SameData m') : m.SameLayout m' :=
  ⟨h.families, h.ends, h.isSealed, h.catalog ▸ .refl⟩

/-- Nothing can be added to a frozen catalog. -/
theorem SameLayout.sameData (h : m.SameLayout m') (hfrozen : m.catalog.frozen = true) :
    m.SameData m' :=
  ⟨h.families, h.ends, h.isSealed, h.catalog.eq_of_frozen hfrozen⟩

/-- What a request does to families, columns, phase and catalog. -/
inductive LayoutStep (m : Model κ) : Action κ → Model κ → Prop
  | keep {a : Action κ} {m' : Model κ} (h : m.SameLayout m') : LayoutStep m a m'
  | limit {marker : Marker} {v : Int} {c : Catalog} (hset : m.catalog.setLimit marker v = .ok c) :
      LayoutStep m (.setLimit marker v) { m with catalog := c }
  | declare {name : Option String} {space : Space} {domain : Domain κ} {called : String}
      (hopen : m.isSealed = false) (hname : ∀ g ∈ m.families, g.name ≠ called) :
      LayoutStep m (.declareFamily name space domain)
        { m with families := m.families ++ [⟨called, space, domain, none⟩] }
  | place {slot start : Nat} {f : Family κ} (hf : m.families[slot]? = some f)
      (hstart : f.start = none) :
      LayoutStep m (.placeFamily slot start)
        { m with families := m.families.set slot { f with start := some start } }
  | sealUp : LayoutStep m .sealUp m.sealUp.2

theorem SameLayout.addLabels (d : Dimension) (ls : List String) (m : Model κ) :
    m.SameLayout (m.addLabels d ls).2 := by
  induction ls generalizing m with
  | nil => exact .refl m
  | cons l ls ih =>
      rw [Model.addLabels]
      split
      · exact .refl m
      · rename_i k c hadd
        have hrest := ih { m with catalog := c }
        exact ⟨hrest.families, hrest.ends, hrest.isSealed,
          (Catalog.Grows.refl.label hadd).trans hrest.catalog⟩

theorem labels_addLabels {d : Dimension} {ls : List String} {added : List Nat}
    (h : (m.addLabels d ls).1 = .ok added) (e : Dimension) :
    (m.addLabels d ls).2.catalog.labels e = m.catalog.labels e ++ if d = e then ls else [] := by
  induction ls generalizing m added with
  | nil => simp [addLabels]
  | cons l ls ih =>
      rw [addLabels] at h ⊢
      split at h
      · cases h
      rename_i k c hadd
      obtain ⟨rest, hrest, -⟩ := Outcome.bind_eq_ok_iff.mp h
      refine (ih hrest).trans ?_
      dsimp only
      rw [Catalog.labels_addLabel hadd, List.append_assoc]
      split <;> rfl

theorem parameters_addLabels (d : Dimension) (ls : List String) (m : Model κ) :
    (m.addLabels d ls).2.parameters = m.parameters := by
  induction ls generalizing m with
  | nil => rfl
  | cons l ls ih =>
      rw [addLabels]
      split
      · rfl
      · exact ih _

theorem SameData.storeBy (slot : Nat) (f : Parameter κ → Outcome Unit × Parameter κ)
    (m : Model κ) : m.SameData (m.storeBy slot f).2 := by
  unfold Model.storeBy
  split
  · exact ⟨rfl, rfl, rfl, rfl⟩
  · exact ⟨rfl, rfl, rfl, rfl⟩

theorem commit_cases (m : Model κ) (added : List Nat) (o : Outcome (Model κ)) :
    (m.commit added o).2 = m ∨ o = .ok (m.commit added o).2 := by
  cases o with
  | error e => exact .inl rfl
  | ok m' => exact .inr rfl

theorem setLimit_eq_ok {marker : Marker} {v : Int} (h : m.setLimit marker v = .ok m') :
    ∃ c, m.catalog.setLimit marker v = .ok c ∧ m' = { m with catalog := c } := by
  obtain ⟨c, hc, heq⟩ := Outcome.bind_eq_ok_iff.mp h
  cases heq
  exact ⟨c, hc, rfl⟩

theorem setDefault_sameData {slot : Nat} {v : κ} (h : m.setDefault slot v = .ok m') :
    m.SameData m' := by
  obtain ⟨p, -, heq⟩ := Outcome.bind_eq_ok_iff.mp h
  cases heq
  exact ⟨rfl, rfl, rfl, rfl⟩

theorem constrainEach_sameData {name : Option String} {space : Space}
    {body : List Nat → Outcome (Constraint κ)} (h : m.constrainEach name space body = .ok m') :
    m.SameData m' := by
  obtain ⟨cs, -, heq⟩ := Outcome.bind_eq_ok_iff.mp h
  cases heq
  exact ⟨rfl, rfl, rfl, rfl⟩

theorem declareFamily_eq_ok {name : Option String} {space : Space} {domain : Domain κ}
    (h : m.declareFamily name space domain = .ok m') :
    m.isSealed = false ∧ (∀ g ∈ m.families, g.name ≠ name.getD s!"x{m.families.length}")
      ∧ m' = { m with families :=
        m.families ++ [⟨name.getD s!"x{m.families.length}", space, domain, none⟩] } := by
  unfold declareFamily at h
  split at h
  · cases h
  rename_i hopen
  dsimp only at h
  split at h
  · cases h
  rename_i hname
  cases h
  exact ⟨by simpa using hopen, by simpa using hname, rfl⟩

theorem placeFamily_eq_ok {slot start : Nat} (h : m.placeFamily slot start = .ok m') :
    ∃ f, m.families[slot]? = some f ∧ f.start = none
      ∧ m' = { m with families := m.families.set slot { f with start := some start } } := by
  obtain ⟨f, hf, hrest⟩ := Outcome.bind_eq_ok_iff.mp h
  obtain ⟨g, hg, heq⟩ := Outcome.bind_eq_ok_iff.mp hrest
  obtain ⟨hstart, rfl⟩ := Family.place_eq_ok hg
  cases heq
  unfold Model.family at hf
  split at hf
  · rename_i hslot
    cases hf
    exact ⟨f, hslot, hstart, rfl⟩
  · cases hf

theorem perform_layoutStep (m : Model κ) (a : Action κ) : m.LayoutStep a (m.perform a).2 := by
  cases a with
  | addLabels d labels => exact .keep (.addLabels d labels m)
  | setLimit marker v =>
      rcases m.commit_cases [] (m.setLimit marker v) with h | h
      · exact .keep (by rw [perform, h]; exact .refl m)
      · obtain ⟨c, hc, heq⟩ := setLimit_eq_ok h
        rw [perform, heq]
        exact .limit hc
  | declareParameter name space domain fallback => exact .keep ⟨rfl, rfl, rfl, .refl⟩
  | setDefault slot v =>
      rcases m.commit_cases [] (m.setDefault slot v) with h | h
      · exact .keep (by rw [perform, h]; exact .refl m)
      · exact .keep (setDefault_sameData h).sameLayout
  | store slot coords v => exact .keep (SameData.storeBy slot _ m).sameLayout
  | storeLabelled slot labels v => exact .keep (SameData.storeBy slot _ m).sameLayout
  | declareFamily name space domain =>
      rcases m.commit_cases [m.families.length] (m.declareFamily name space domain) with h | h
      · exact .keep (by rw [perform, h]; exact .refl m)
      · obtain ⟨hopen, hname, heq⟩ := declareFamily_eq_ok h
        rw [perform, heq]
        exact .declare hopen hname
  | placeFamily slot start =>
      rcases m.commit_cases [] (m.placeFamily slot start) with h | h
      · exact .keep (by rw [perform, h]; exact .refl m)
      · obtain ⟨f, hf, hstart, heq⟩ := placeFamily_eq_ok h
        rw [perform, heq]
        exact .place hf hstart
  | sealUp => exact .sealUp
  | constrain name c => exact .keep ⟨rfl, rfl, rfl, .refl⟩
  | constrainEach name space body =>
      rcases m.commit_cases [] (m.constrainEach name space body) with h | h
      · exact .keep (by rw [perform, h]; exact .refl m)
      · exact .keep (constrainEach_sameData h).sameLayout
  | setObjective name sense e => exact .keep ⟨rfl, rfl, rfl, .refl⟩

theorem run_append (m : Model κ) (before after : List (Action κ)) :
    m.run (before ++ after) = (m.run before).run after := List.foldl_append

/-- What each step of a history keeps, the whole history keeps. -/
theorem run_invariant {P : Model κ → Prop} {history : List (Action κ)}
    (hstep : ∀ m : Model κ, ∀ a ∈ history, P m → P (m.perform a).2) (hm : P m) :
    P (m.run history) := by
  induction history generalizing m with
  | nil => exact hm
  | cons a history ih =>
      have hfirst : P (m.perform a).2 := hstep m a List.mem_cons_self hm
      exact ih (fun m b hb => hstep m b (List.mem_cons_of_mem a hb)) hfirst

variable [Scalar κ]

/-- A model that an empty one becomes by some history without placing by hand. -/
def Reachable (m : Model κ) : Prop :=
  ∃ (name : Option String) (history : List (Action κ)),
    (∀ a ∈ history, a.Ordinary) ∧ (Model.empty name).run history = m

theorem Reachable.invariant {P : Model κ → Prop} (hempty : ∀ name, P (Model.empty name))
    (hstep : ∀ (m : Model κ) (a : Action κ), a.Ordinary → P m → P (m.perform a).2)
    (hm : m.Reachable) : P m := by
  obtain ⟨name, history, hordinary, rfl⟩ := hm
  exact run_invariant (fun m a ha => hstep m a (hordinary a ha)) (hempty name)

end Model

end LinearProgram
