import LinearProgram.Parameter
import LinearProgram.Proofs.Catalog.Members

/-!
Tables of parameters. A store that is carried out finds a table as large as the space is, or makes
one, and sets the element at the coordinates; a read of a table that is there finds the same.
-/

namespace LinearProgram.Parameter

variable {κ : Type} {c : Catalog} {p : Parameter κ} {coords : List Nat} {sizes : Shape} {n k : Nat}
  {v w : κ}

/-! ### Stores -/

/-- What a store that is carried out finds: index data open, and a table, if there is one, of the
size of the space. -/
structure Storable (c : Catalog) (n : Nat) (p : Parameter κ) : Prop where
  frozen : c.frozen = false
  size : p.space.size c = .ok n
  length : p.populated = true → p.values.length = n

theorem storable_eq_ok (h : p.storable c = .ok (sizes, n)) :
    p.Storable c n ∧ p.space.sizes c = .ok sizes := by
  unfold storable at h
  split at h
  · cases h
  rename_i hfrozen
  obtain ⟨sizes', hsizes, hrest⟩ := Outcome.bind_eq_ok_iff.mp h
  obtain ⟨n', hcount, hrest⟩ := Outcome.bind_eq_ok_iff.mp hrest
  split at hrest
  · cases hrest
  rename_i hfits
  cases hrest
  refine ⟨⟨by simpa using hfrozen, ?_, ?_⟩, hsizes⟩
  · rw [Space.size, hsizes, Outcome.ok_bind, hcount]
  · intro hpopulated
    by_contra hlength
    exact hfits ⟨hpopulated, hlength⟩

/-- The parameter with a table of defaults. -/
def filled (n : Nat) (p : Parameter κ) : Parameter κ :=
  { p with values := List.replicate n p.fallback }

theorem values_of_unpopulated (h : p.populated = false) : p.values = [] := by
  simpa [populated] using h

theorem allocate_of_unpopulated (h : p.populated = false) (n : Nat) : p.allocate n = p.filled n :=
  if_neg (by simp [h])

theorem allocate_of_populated (h : p.populated = true) (n : Nat) : p.allocate n = p := if_pos h

theorem allocate_eq (n : Nat) (p : Parameter κ) :
    p.allocate n = { p with values := (p.allocate n).values } := by
  unfold allocate
  split <;> rfl

theorem store_eq_ok (h : (p.store c coords v).1 = .ok ()) :
    ∃ n k, p.Storable c n ∧ p.space.offset c coords = .ok k
      ∧ (p.store c coords v).2 = { p with values := (p.allocate n).values.set k v } := by
  unfold store at h ⊢
  split at h
  · cases h
  rename_i sizes n hstorable
  obtain ⟨hn, hsizes⟩ := storable_eq_ok hstorable
  dsimp only at h ⊢
  split at h
  · cases h
  rename_i p' hwrite
  unfold write at hwrite
  obtain ⟨o, ho, hfound⟩ := Outcome.bind_eq_ok_iff.mp hwrite
  cases o with
  | none => cases hfound
  | some k =>
      refine ⟨n, k, hn, ?_, ?_⟩
      · rw [Space.offset, hsizes, Outcome.ok_bind, ho]
        rfl
      · rw [← Except.ok.inj hfound, allocate_eq]

theorem storeLabelled_eq_ok {labels : List String}
    (h : (p.storeLabelled c labels v).1 = .ok ()) :
    ∃ coords, p.space.resolve c labels = .ok coords
      ∧ p.storeLabelled c labels v = p.store c coords v := by
  unfold storeLabelled at h ⊢
  split at h
  · cases h
  rename_i coords hresolve
  exact ⟨coords, hresolve, rfl⟩

theorem store_of_resized (hfrozen : c.frozen = false) (hpopulated : p.populated = true)
    (hsize : p.space.size c = .ok n) (hn : p.values.length ≠ n) (coords : List Nat) (v : κ) :
    (p.store c coords v).1.RefusedAs .shapeMismatch := by
  obtain ⟨sizes, hsizes, hcount, -, -⟩ := Space.size_eq_ok hsize
  have hstorable : p.storable c = .refuse (.resized p.name p.values.length n) := by
    unfold storable
    rw [if_neg (by simp [hfrozen]), hsizes, Outcome.ok_bind, hcount, Outcome.ok_bind,
      if_pos ⟨hpopulated, hn⟩]
  unfold store
  rw [hstorable]
  exact ⟨_, rfl, rfl⟩

theorem store_of_frozen (hfrozen : c.frozen = true) (coords : List Nat) (v : κ)
    (p : Parameter κ) : p.store c coords v = (.refuse (.lateStore p.name), p) := by
  rw [store, storable, if_pos hfrozen]
  rfl

theorem storeLabelled_of_frozen (hfrozen : c.frozen = true) (labels : List String) (v : κ)
    (p : Parameter κ) : ∃ e, p.storeLabelled c labels v = (.error e, p) := by
  unfold storeLabelled
  split
  · exact ⟨_, rfl⟩
  · exact ⟨_, store_of_frozen hfrozen _ v p⟩

/-! ### Reads -/

theorem read_of_unpopulated (h : p.populated = false) : p.read c coords = .ok p.fallback := by
  rw [read, h]
  rfl

theorem read_eq_ok_iff (hpopulated : p.populated = true) :
    p.read c coords = .ok w ↔ p.space.size c = .ok p.values.length
      ∧ ∃ k, p.space.offset c coords = .ok k ∧ p.values.getD k p.fallback = w := by
  rw [read, if_pos hpopulated]
  constructor
  · intro h
    obtain ⟨n, hn, hrest⟩ := Outcome.bind_eq_ok_iff.mp h
    split at hrest
    · cases hrest
    rename_i hlength
    rw [not_not] at hlength
    obtain ⟨k, hk, heq⟩ := Outcome.bind_eq_ok_iff.mp hrest
    cases heq
    exact ⟨by rw [hn, hlength], k, hk, rfl⟩
  · rintro ⟨hsize, k, hk, rfl⟩
    rw [hsize, Outcome.ok_bind, if_neg (by simp), hk]
    rfl

theorem read_of_resized (hpopulated : p.populated = true) (hsize : p.space.size c = .ok n)
    (hn : p.values.length ≠ n) : (p.read c coords).RefusedAs .shapeMismatch := by
  rw [read, if_pos hpopulated, hsize, Outcome.ok_bind, if_pos hn.symm]
  exact ⟨_, rfl, rfl⟩

/-- The default matters only where nothing is stored. -/
theorem read_setDefault (hpopulated : p.populated = true) (v : κ) :
    (p.setDefault v).read c coords = p.read c coords := by
  have hpopulated' : (p.setDefault v).populated = true := hpopulated
  rw [read, read, if_pos hpopulated, if_pos hpopulated']
  cases hsize : p.space.size c with
  | error e => rw [setDefault, hsize]; rfl
  | ok n =>
      rw [setDefault, hsize, Outcome.ok_bind, Outcome.ok_bind]
      dsimp only
      split
      · rfl
      rename_i hlength
      cases hoffset : p.space.offset c coords with
      | error e => rfl
      | ok k =>
          obtain ⟨k', hlt, hoffset', -⟩ :=
            Space.exists_offset hsize (Space.inRange_of_offset hoffset)
          cases hoffset.symm.trans hoffset'
          have hk : k < p.values.length := by omega
          simp only [Outcome.ok_bind, List.getD_eq_getElem?_getD, List.getElem?_eq_getElem hk,
            Option.getD_some]

theorem read_eq_of_agree {c' : Catalog} (h : p.space.Agree c c') :
    p.read c' coords = p.read c coords := by
  unfold read
  rw [h.size_eq, h.offset_eq]

end LinearProgram.Parameter
