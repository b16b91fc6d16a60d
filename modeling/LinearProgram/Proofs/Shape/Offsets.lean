import LinearProgram.Proofs.Shape.MixedRadix

/-!
Coordinates and offsets. The offset of coordinates is worked out in machine words from the left, and
a number is split into coordinates from the right. Main statement: the two undo each other, and
overflow is met only where the offset itself does not fit into a word.
-/

namespace LinearProgram

namespace Outcome

variable {α : Type} {o : Outcome α}

/-- Given up because a sum or a product does not fit into a word. -/
def Overflows (o : Outcome α) : Prop := o = .trap .addOverflow ∨ o = .trap .mulOverflow

theorem Overflows.ne_ok (h : o.Overflows) (a : α) : o ≠ .ok a := by
  rintro rfl
  rcases h with hadd | hmul
  · cases hadd
  · cases hmul

end Outcome

namespace Shape

variable {d : Shape} {coords : List Nat} {n : Nat}

/-- The sum of all coordinates, each times the sizes of the dimensions behind its own. -/
def weighted (d : Shape) (coords : List Nat) : Nat :=
  (coords.mapIdx fun k i => i * (d.drop (k + 1)).prod).sum

theorem linear_eq_weighted (h : coords.length = d.length) :
    d.linear coords = d.weighted coords := by
  induction d generalizing coords with
  | nil =>
      rw [List.length_eq_zero_iff.mp h]
      rfl
  | cons m ds ih =>
      cases coords with
      | nil => cases h
      | cons i is =>
          rw [weighted, List.mapIdx_cons, List.sum_cons, linear, ih (Nat.succ.inj h)]
          rfl

theorem not_contains_iff : ¬d.Contains coords ↔
    coords.length ≠ d.length
      ∨ ∃ k i n : Nat, coords[k]? = some i ∧ d[k]? = some n ∧ n ≤ i := by
  rw [Contains, not_and_or]
  refine or_congr_right ?_
  constructor
  · intro h
    push Not at h
    obtain ⟨⟨i, n⟩, hmem, hbeyond⟩ := h
    obtain ⟨k, hk⟩ := List.mem_iff_getElem?.mp hmem
    obtain ⟨hi, hn⟩ := List.getElem?_zip_eq_some.mp hk
    exact ⟨k, i, n, hi, hn, hbeyond⟩
  · rintro ⟨k, i, n, hi, hn, hbeyond⟩ hbelow
    have hmem : (i, n) ∈ coords.zip d :=
      List.mem_iff_getElem?.mpr ⟨k, List.getElem?_zip_eq_some.mpr ⟨hi, hn⟩⟩
    exact absurd (hbelow _ hmem) (Nat.not_lt.mpr hbeyond)

/-! ### From coordinates to offsets -/

/-- Reading on from the number `acc` written so far overflows when the whole does not fit into a
word: either a step overflows, or what has been read after it is part of the same whole. -/
theorem foldlM_offset_overflows (acc : Nat) (hacc : acc < Word.limit) (h : d.Contains coords)
    (hlong : Word.limit ≤ acc * d.prod + d.linear coords) :
    Outcome.Overflows
      ((coords.zip d).foldlM (fun acc (i, n) => do Word.add (← Word.mul acc n) i) acc) := by
  rw [contains_iff_forall₂] at h
  induction h generalizing acc with
  | nil =>
      have hwhole : acc * List.prod [] + linear [] [] = acc := Nat.mul_one acc
      exact absurd hacc (Nat.not_lt.mpr (hwhole ▸ hlong))
  | @cons i n is ds hi hrest ih =>
      rw [List.zip_cons_cons, List.foldlM_cons]
      by_cases hmul : acc * n < Word.limit
      · have hproduct : Word.mul acc n = .ok (acc * n) := if_pos hmul
        by_cases hadd : acc * n + i < Word.limit
        · have hsum : Word.add (acc * n) i = .ok (acc * n + i) := if_pos hadd
          have hwhole : acc * (n :: ds).prod + linear (n :: ds) (i :: is)
              = (acc * n + i) * ds.prod + linear ds is := by
            rw [List.prod_cons, linear]
            ring
          simp only [hproduct, hsum, Outcome.ok_bind]
          exact ih _ hadd (hwhole ▸ hlong)
        · have hsum : Word.add (acc * n) i = .trap .addOverflow := if_neg hadd
          simp only [hproduct, hsum, Outcome.ok_bind]
          exact .inl rfl
      · have hproduct : Word.mul acc n = .trap .mulOverflow := if_neg hmul
        simp only [hproduct]
        exact .inr rfl

theorem offset?_of_contains (h : d.Contains coords) (hfit : d.weighted coords < Word.limit) :
    d.offset? coords = .ok (some (d.weighted coords)) := by
  rw [← linear_eq_weighted h.1] at hfit ⊢
  rw [offset?, if_pos h, offset_eq_linear h hfit]
  rfl

theorem offset?_overflows (h : d.Contains coords) (hlong : Word.limit ≤ d.weighted coords) :
    (d.offset? coords).Overflows := by
  rw [← linear_eq_weighted h.1] at hlong
  have hread : (d.offset coords).Overflows := by
    apply foldlM_offset_overflows 0 (by decide) h
    rwa [Nat.zero_mul, Nat.zero_add]
  rw [offset?, if_pos h]
  exact hread.imp (congrArg (some <$> ·)) (congrArg (some <$> ·))

theorem offset?_eq_none_iff : d.offset? coords = .ok none ↔ ¬d.Contains coords := by
  constructor
  · intro hnone h
    by_cases hfit : d.weighted coords < Word.limit
    · cases hnone.symm.trans (offset?_of_contains h hfit)
    · exact (offset?_overflows h (Nat.le_of_not_lt hfit)).ne_ok none hnone
  · exact fun h => if_neg h

theorem offset?_eq_some_iff (h : d.Contains coords) :
    d.offset? coords = .ok (some (d.weighted coords)) ↔ d.weighted coords < Word.limit := by
  refine ⟨fun hsome => ?_, offset?_of_contains h⟩
  by_contra hlong
  exact (offset?_overflows h (Nat.le_of_not_lt hlong)).ne_ok _ hsome

theorem offset?_overflows_iff (h : d.Contains coords) :
    (d.offset? coords).Overflows ↔ Word.limit ≤ d.weighted coords := by
  refine ⟨fun hoverflows => ?_, offset?_overflows h⟩
  by_contra hfit
  exact hoverflows.ne_ok _ (offset?_of_contains h (Nat.lt_of_not_le hfit))

/-! ### From numbers to coordinates -/

theorem foldlM_mul_of_pos {p : Nat} (hpos : 0 ∉ d) (hfit : p * d.prod < Word.limit) :
    d.foldlM Word.mul p = .ok (p * d.prod) := by
  induction d generalizing p with
  | nil =>
      rw [List.prod_nil, Nat.mul_one]
      rfl
  | cons m ds ih =>
      rw [List.mem_cons, not_or] at hpos
      have hrest : 0 < ds.prod := Nat.pos_of_ne_zero (List.prod_ne_zero hpos.2)
      rw [List.prod_cons, ← Nat.mul_assoc] at hfit ⊢
      have hfirst : p * m < Word.limit := (Nat.le_mul_of_pos_right _ hrest).trans_lt hfit
      rw [List.foldlM_cons, Word.mul_eq_ok_iff.mpr ⟨hfirst, rfl⟩, Outcome.ok_bind]
      exact ih hpos.2 hfit

theorem count_of_pos (hpos : 0 ∉ d) (hfit : d.prod < Word.limit) : d.count = .ok d.prod := by
  rw [← Nat.one_mul d.prod] at hfit ⊢
  exact foldlM_mul_of_pos hpos hfit

theorem decodeInto_eq {buffer : List Nat} (hbuffer : buffer.length = d.length)
    (h : d.Contains coords) (hdecode : d.decode n = .ok coords) :
    d.decodeInto n buffer = .ok coords := by
  have hrest : buffer.drop coords.length = [] := by
    rw [List.drop_eq_nil_iff, hbuffer, h.1]
  rw [decodeInto, List.take_of_length_le hbuffer.ge, hdecode, Outcome.ok_bind, hrest,
    List.append_nil]
  rfl

/-- Where no dimension is empty every number is split, up to multiples of the size. -/
theorem exists_decode (hpos : 0 ∉ d) (n : Nat) :
    ∃ coords, d.decode n = .ok coords ∧ d.Contains coords ∧ d.weighted coords = n % d.prod := by
  obtain ⟨coords, hcontains, hlinear⟩ := exists_linear_eq_mod hpos n
  refine ⟨coords, ?_, hcontains, (linear_eq_weighted hcontains.1).symm.trans hlinear⟩
  have hdigits : d.digits n = .ok (coords, n / d.prod) := by
    have hsplit := digits_linear hcontains (n / d.prod)
    rwa [hlinear, Nat.div_add_mod'] at hsplit
  rw [decode, hdigits]
  rfl

/-! ### The correspondence -/

/-- Checked offsets are the mixed-radix values of coordinates: coordinates that do not lie in the
space have none, and overflow is met just when the value does not fit into a word. Where no
dimension is empty and the size fits into a word, a number of any magnitude is split into
coordinates of the space, whose offset is what the number leaves when divided by the size; so the
coordinates of the space and the numbers below its size correspond. -/
theorem coordinates_correspond_to_offsets (d : Shape) :
    (∀ coords, d.offset? coords = .ok none ↔
      coords.length ≠ d.length
        ∨ ∃ k i n : Nat, coords[k]? = some i ∧ d[k]? = some n ∧ n ≤ i)
    ∧ (∀ coords, d.Contains coords →
        (d.offset? coords = .ok (some (d.weighted coords)) ↔ d.weighted coords < Word.limit)
        ∧ ((d.offset? coords).Overflows ↔ Word.limit ≤ d.weighted coords))
    ∧ (0 ∉ d → d.prod < Word.limit →
        d.count = .ok d.prod
        ∧ ∀ buffer : List Nat, buffer.length = d.length →
          (∀ n, ∃ coords, d.decodeInto n buffer = .ok coords ∧ d.Contains coords
            ∧ d.offset? coords = .ok (some (n % d.prod)))
          ∧ ∀ coords, d.Contains coords →
            ∃ k, k < d.prod ∧ d.offset? coords = .ok (some k)
              ∧ d.decodeInto k buffer = .ok coords) := by
  refine ⟨fun coords => offset?_eq_none_iff.trans not_contains_iff, fun coords h => ?_,
    fun hpos hfit => ⟨count_of_pos hpos hfit, fun buffer hbuffer => ⟨fun n => ?_, ?_⟩⟩⟩
  · exact ⟨offset?_eq_some_iff h, offset?_overflows_iff h⟩
  · obtain ⟨coords, hdecode, hcontains, hvalue⟩ := exists_decode hpos n
    refine ⟨coords, decodeInto_eq hbuffer hcontains hdecode, hcontains, ?_⟩
    have hbelow : n % d.prod < d.prod :=
      Nat.mod_lt n (Nat.pos_of_ne_zero (List.prod_ne_zero hpos))
    rw [offset?_of_contains hcontains (hvalue ▸ hbelow.trans hfit), hvalue]
  · intro coords h
    have hbelow : d.weighted coords < d.prod := linear_eq_weighted h.1 ▸ linear_lt_prod h
    refine ⟨_, hbelow, offset?_of_contains h (hbelow.trans hfit), ?_⟩
    apply decodeInto_eq hbuffer h
    rw [← linear_eq_weighted h.1]
    exact decode_linear h

/-- The number 17 in the space of two by three by two, and coordinates of a space too large. -/
theorem coordinates_of_seventeen :
    (∃ coords, Shape.decodeInto [2, 3, 2] 17 [9, 9, 9] = .ok coords
      ∧ Shape.Contains [2, 3, 2] coords ∧ Shape.offset? [2, 3, 2] coords = .ok (some 5))
    ∧ Shape.Contains [2 ^ 63, 2 ^ 63] [2, 0]
    ∧ (Shape.offset? [2 ^ 63, 2 ^ 63] [2, 0]).Overflows := by
  obtain ⟨-, -, hsmall⟩ := coordinates_correspond_to_offsets [2, 3, 2]
  obtain ⟨-, hlarge, -⟩ := coordinates_correspond_to_offsets [2 ^ 63, 2 ^ 63]
  obtain ⟨-, hdecode⟩ := hsmall (by decide) (by decide)
  have hcontains : Shape.Contains [2 ^ 63, 2 ^ 63] [2, 0] := by decide
  refine ⟨(hdecode [9, 9, 9] rfl).1 17, hcontains, ?_⟩
  exact (hlarge _ hcontains).2.mpr (by decide)

end Shape

end LinearProgram
