import LinearProgram.Proofs.Shape.Odometer
import Mathlib.Data.List.OfFn

/-!
Row-major order. The elements of a space follow each other in lexicographic order; those of a space
with further dimensions come in blocks, one for each element of the leading dimensions. Which
element comes first depends on the order of the dimensions, which elements there are does not.
-/

namespace LinearProgram

namespace Shape

theorem grid_append (d d' : Shape) :
    (d ++ d').grid = d.grid.flatMap fun i => d'.grid.map (i ++ ·) := by
  induction d with
  | nil => simp [grid]
  | cons n ds ih =>
      have hblock (i : Nat) : (grid (ds ++ d')).map (i :: ·)
          = ((grid ds).map (i :: ·)).flatMap fun is => d'.grid.map (is ++ ·) := by
        rw [ih, List.map_flatMap, List.flatMap_map]
        simp only [List.map_map, Function.comp_def, List.cons_append]
      rw [List.cons_append, grid, grid, List.flatMap_assoc]
      simp only [hblock]

end Shape

namespace Space

variable {c : Catalog} {s t : Space} {elements : List (List Nat)} {coords : List Nat}

/-- All elements in range, each once and in row-major order. -/
structure Enumerates (c : Catalog) (s : Space) (elements : List (List Nat)) : Prop where
  mem_iff : ∀ coords, coords ∈ elements ↔ s.InRange c coords
  ascending : elements.Pairwise (List.Lex (· < ·))

theorem Enumerates.nodup (h : s.Enumerates c elements) : elements.Nodup := by
  refine h.ascending.imp ?_
  rintro left _ hlex rfl
  exact List.lt_irrefl left hlex

theorem elements_of_sizes {sizes : Shape} (h : s.sizes c = .ok sizes) :
    s.elements c = .ok sizes.grid := by
  rw [elements, h, Outcome.ok_bind, Shape.coords_eq_grid]
  rfl

theorem enumerates_grid {sizes : Shape} (h : s.sizes c = .ok sizes) :
    s.Enumerates c sizes.grid :=
  ⟨fun _ => Shape.mem_grid_iff.trans (inRange_iff h).symm, sizes.lexicographic_grid⟩

/-- A space whose sizes are known has an enumeration, however many elements there are. -/
theorem exists_enumeration (h : ∀ d ∈ s, ∃ n, c.size d = .ok n) :
    ∃ elements, s.elements c = .ok elements ∧ s.Enumerates c elements := by
  obtain ⟨sizes, hsizes⟩ : ∃ sizes, s.sizes c = .ok sizes :=
    (exists_congr fun _ => sizes_eq_ok_iff).mpr (Outcome.exists_forall₂_iff.mpr h)
  exact ⟨sizes.grid, elements_of_sizes hsizes, enumerates_grid hsizes⟩

/-- A space with a dimension of unknown size fails for the first one. -/
theorem elements_of_unknown {d : Dimension} {e : Failure}
    (h : Outcome.FailsFirst c.size s d e) : s.elements c = .error e := by
  rw [elements, sizes, h.mapM]
  rfl

theorem elements_append {outer inner : List (List Nat)} (hs : s.elements c = .ok outer)
    (ht : t.elements c = .ok inner) :
    (s ++ t).elements c = .ok (outer.flatMap fun i => inner.map (i ++ ·)) := by
  obtain ⟨sizes, hsizes, heq⟩ := Outcome.bind_eq_ok_iff.mp hs
  obtain ⟨sizes', hsizes', heq'⟩ := Outcome.bind_eq_ok_iff.mp ht
  cases heq
  cases heq'
  have hboth : (s ++ t).sizes c = .ok (sizes ++ sizes') := by
    rw [sizes_eq_ok_iff] at hsizes hsizes' ⊢
    exact List.rel_append hsizes hsizes'
  rw [elements_of_sizes hboth, Shape.grid_append, Shape.coords_eq_grid, Shape.coords_eq_grid]

theorem not_inRange_of_empty {d : Dimension} (hd : d ∈ s) (hempty : c.size d = .ok 0) :
    ¬s.InRange c coords := by
  intro h
  induction h with
  | nil => cases hd
  | cons hi _ ih =>
      rcases List.mem_cons.mp hd with rfl | hd
      · obtain ⟨n, hn, hlt⟩ := hi
        cases hempty.symm.trans hn
        omega
      · exact ih hd

theorem Enumerates.eq_nil_of_empty {d : Dimension} (h : s.Enumerates c elements) (hd : d ∈ s)
    (hempty : c.size d = .ok 0) : elements = [] := by
  refine List.eq_nil_iff_forall_not_mem.mpr fun coords hcoords => ?_
  exact not_inRange_of_empty hd hempty ((h.mem_iff coords).mp hcoords)

/-! ### The first element at which a request fails -/

/-- A request fails at an element in range, and succeeds at all that come before it in row-major
order. -/
structure FirstFailure {β : Type} (c : Catalog) (s : Space) (body : List Nat → Outcome β)
    (coords : List Nat) (e : Failure) : Prop where
  inRange : s.InRange c coords
  fails : body coords = .error e
  earlier : ∀ other, s.InRange c other → List.Lex (· < ·) other coords → ∃ b, body other = .ok b

theorem Enumerates.firstFailure {β : Type} {body : List Nat → Outcome β} {e : Failure}
    (h : s.Enumerates c elements) (hfirst : Outcome.FailsFirst body elements coords e) :
    s.FirstFailure c body coords e := by
  refine ⟨(h.mem_iff coords).mp hfirst.mem, hfirst.error, fun other hother hlex => ?_⟩
  obtain ⟨before, after, rfl, hbefore, -⟩ := hfirst
  -- the element comes earlier, so that it is neither the one that fails nor behind it
  rcases List.mem_append.mp ((h.mem_iff other).mpr hother) with hmem | hmem
  · exact hbefore other hmem
  rcases List.mem_cons.mp hmem with rfl | hmem
  · exact absurd hlex (List.lt_irrefl other)
  · obtain ⟨-, hbehind, -⟩ := List.pairwise_append.mp h.ascending
    have hlater : List.Lex (· < ·) coords other := List.rel_of_pairwise_cons hbehind hmem
    exact absurd hlex (List.lt_asymm hlater)

/-! ### Permuted dimensions -/

/-- Dimensions in the order in which a permutation takes them. -/
def permute (s : Space) (σ : Equiv.Perm (Fin s.length)) : Space := List.ofFn fun i => s[σ i]

/-- Coordinates in the order in which a permutation takes them. -/
def permuteCoords {n : Nat} (σ : Equiv.Perm (Fin n)) (coords : List Nat) : List Nat :=
  List.ofFn fun i => coords.getD (σ i) 0

theorem mem_of_mem_permute {σ : Equiv.Perm (Fin s.length)} {d : Dimension} (h : d ∈ s.permute σ) :
    d ∈ s := by
  obtain ⟨i, rfl⟩ := List.mem_ofFn.mp h
  exact List.getElem_mem _

variable {n : Nat} {dims : Fin n → Dimension}

theorem permuteCoords_ofFn (σ : Equiv.Perm (Fin n)) (g : Fin n → Nat) :
    permuteCoords σ (List.ofFn g) = List.ofFn (g ∘ σ) := by
  simp [permuteCoords, List.getD_eq_getElem?_getD, Function.comp_def]

theorem inRange_ofFn_iff :
    InRange c (List.ofFn dims) coords
      ↔ ∃ g : Fin n → Nat, coords = List.ofFn g ∧ ∀ i, ∃ k, c.size (dims i) = .ok k ∧ g i < k := by
  rw [InRange, List.forall₂_iff_get]
  constructor
  · rintro ⟨hlength, hbelow⟩
    rw [List.length_ofFn] at hlength
    subst hlength
    refine ⟨coords.get, (List.ofFn_get coords).symm, fun i => ?_⟩
    simpa using hbelow i (by simp) i.isLt
  · rintro ⟨g, rfl, hbelow⟩
    refine ⟨by simp, fun i hi _ => ?_⟩
    rw [List.length_ofFn] at hi
    simpa using hbelow ⟨i, hi⟩

/-- The elements of a space with its dimensions in another order are the elements of the space with
their coordinates in that order. -/
theorem perm_of_permute {σ : Equiv.Perm (Fin s.length)} {elements' : List (List Nat)}
    (h : s.Enumerates c elements) (h' : (s.permute σ).Enumerates c elements') :
    (elements'.map (permuteCoords σ.symm)).Perm elements := by
  have hspace : s = List.ofFn s.get := (List.ofFn_get s).symm
  have hrange : ∀ coords, s.InRange c coords ↔ ∃ g : Fin s.length → Nat, coords = List.ofFn g
      ∧ ∀ i, ∃ k, c.size (s.get i) = .ok k ∧ g i < k := by
    intro coords
    conv_lhs => rw [hspace]
    exact inRange_ofFn_iff
  have hmem : ∀ coords, coords ∈ elements' ↔ ∃ g : Fin s.length → Nat, coords = List.ofFn g
      ∧ ∀ i, ∃ k, c.size (s.get (σ i)) = .ok k ∧ g i < k :=
    fun coords => (h'.mem_iff coords).trans inRange_ofFn_iff
  have hnodup : (elements'.map (permuteCoords σ.symm)).Nodup := by
    refine h'.nodup.map_on ?_
    intro left hleft right hright heq
    obtain ⟨g, rfl, -⟩ := (hmem left).mp hleft
    obtain ⟨g', rfl, -⟩ := (hmem right).mp hright
    rw [permuteCoords_ofFn, permuteCoords_ofFn] at heq
    rw [σ.symm.surjective.injective_comp_right (List.ofFn_injective heq)]
  rw [List.perm_ext_iff_of_nodup hnodup h.nodup]
  intro coords
  rw [List.mem_map, h.mem_iff, hrange]
  constructor
  · rintro ⟨_, hcoords, rfl⟩
    obtain ⟨g, rfl, hbelow⟩ := (hmem _).mp hcoords
    refine ⟨g ∘ σ.symm, permuteCoords_ofFn σ.symm g, fun i => ?_⟩
    simpa using hbelow (σ.symm i)
  · rintro ⟨g, rfl, hbelow⟩
    refine ⟨List.ofFn (g ∘ σ), (hmem _).mpr ⟨g ∘ σ, rfl, fun i => hbelow (σ i)⟩, ?_⟩
    rw [permuteCoords_ofFn, Function.comp_assoc, Equiv.self_comp_symm, Function.comp_id]

end Space

end LinearProgram
