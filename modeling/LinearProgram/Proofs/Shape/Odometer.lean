import LinearProgram.Proofs.Shape.Offsets
import LinearProgram.Proofs.Space
import LinearProgram.Shape.Odometer

/-!
An odometer and the elements it shows. One turn of the wheels adds one to the number that they
write; when the carry leaves the first wheel every element has been shown, and the odometer stays
finished. Main statement: its answers are the elements of the space in lexicographic order, element
`k` being the one that `k` decodes to, and no answer after the last.
-/

namespace LinearProgram

theorem Shape.lexicographic_grid (d : Shape) : d.grid.Pairwise (List.Lex (· < ·)) := by
  induction d with
  | nil => exact List.pairwise_singleton _ _
  | cons n ds ih =>
      rw [grid, List.pairwise_flatMap]
      constructor
      · -- within a block the first coordinate is the same
        intro i _
        rw [List.pairwise_map]
        exact ih.imp .cons
      · refine List.pairwise_lt_range.imp ?_
        intro i j hlt left hleft right hright
        obtain ⟨is, -, rfl⟩ := List.mem_map.mp hleft
        obtain ⟨js, -, rfl⟩ := List.mem_map.mp hright
        exact .rel hlt

theorem Shape.nodup_grid (d : Shape) : d.grid.Nodup := by
  apply List.Nodup.of_map d.linear
  rw [d.map_linear_grid]
  exact List.nodup_range

/-- In the order of their offsets, the elements are those that the offsets decode to. -/
theorem Space.elements_eq_mapM_ofOffset {s : Space} {c : Catalog} {n : Nat}
    (hsize : s.size c = .ok n) : s.elements c = (List.range n).mapM (s.ofOffset c) := by
  obtain ⟨sizes, hsizes, hcount, rfl, -⟩ := size_eq_ok hsize
  have hdecode : (List.range sizes.prod).mapM (s.ofOffset c) = .ok sizes.grid := by
    rw [Outcome.mapM_eq_ok_iff, ← Shape.map_linear_grid, List.forall₂_map_left_iff,
      List.forall₂_same]
    intro coords hcoords
    exact ofOffset_linear hsizes hcount (Shape.mem_grid_iff.mp hcoords)
  rw [hdecode, elements, hsizes, Outcome.ok_bind, Shape.coords_eq_grid]
  rfl

namespace Odometer

/-- The answers to `n` calls, one after the other. -/
def answers : Nat → Odometer → Outcome (List (Option (List Nat)))
  | 0, _ => .ok []
  | n + 1, o => do
    let (answer, o) ← o.next
    return answer :: (← o.answers n)

/-- The odometer shows the element with offset `k`, or has finished if there is none. -/
structure StandsAt (d : Shape) (k : Nat) (o : Odometer) : Prop where
  shape : o.shape = d
  finished : o.finished = true ↔ d.prod ≤ k
  shown : k < d.prod → d.Contains o.current ∧ d.linear o.current = k

variable {d : Shape} {coords : List Nat} {carry k : Nat} {o : Odometer}

/-! ### One step -/

/-- The wheels write the number that they wrote with the carry added, and what leaves the first
wheel counts for the whole space. A coordinate is below its size, so no wheel overflows. -/
theorem turn_eq_ok (hwords : ∀ n ∈ d, n < Word.limit) (h : d.Contains coords) (hcarry : carry ≤ 1) :
    ∃ coords' carry', turn carry (d.zip coords) = .ok (coords', carry') ∧ carry' ≤ 1
      ∧ d.Contains coords' ∧ carry' * d.prod + d.linear coords' = d.linear coords + carry := by
  rw [Shape.contains_iff_forall₂] at h
  induction h with
  | nil => exact ⟨[], carry, rfl, hcarry, by decide, by simp [Shape.linear]⟩
  | @cons i n is ds hi _ ih =>
      obtain ⟨hn, hds⟩ := List.forall_mem_cons.mp hwords
      obtain ⟨is', carry₀, hturn, hcarry₀, hcontains, hvalue⟩ := ih hds
      have hadd : Word.add i carry₀ = .ok (i + carry₀) :=
        Word.add_eq_ok_iff.mpr ⟨by omega, rfl⟩
      rw [Shape.contains_iff_forall₂] at hcontains
      rw [List.zip_cons_cons, turn, hturn, Outcome.ok_bind]
      dsimp only
      rw [hadd, Outcome.ok_bind]
      by_cases hbelow : i + carry₀ < n
      · refine ⟨(i + carry₀) :: is', 0, by rw [if_pos hbelow]; rfl, by omega, ?_, ?_⟩
        · exact Shape.contains_iff_forall₂.mpr (.cons hbelow hcontains)
        · calc 0 * (n :: ds).prod + ((i + carry₀) * ds.prod + Shape.linear ds is')
              = i * ds.prod + (carry₀ * ds.prod + Shape.linear ds is') := by ring
            _ = i * ds.prod + (Shape.linear ds is + carry) := by rw [hvalue]
            _ = i * ds.prod + Shape.linear ds is + carry := (Nat.add_assoc ..).symm
      · -- the wheel has come round, from its last element
        have hround : i + carry₀ = n := by omega
        refine ⟨0 :: is', 1, by rw [if_neg hbelow]; rfl, le_rfl, ?_, ?_⟩
        · exact Shape.contains_iff_forall₂.mpr (.cons (by omega) hcontains)
        · calc 1 * (n :: ds).prod + (0 * ds.prod + Shape.linear ds is')
              = i * ds.prod + (carry₀ * ds.prod + Shape.linear ds is') := by
                rw [List.prod_cons, ← hround]
                ring
            _ = i * ds.prod + (Shape.linear ds is + carry) := by rw [hvalue]
            _ = i * ds.prod + Shape.linear ds is + carry := (Nat.add_assoc ..).symm

theorem contains_zeros (h : 0 ∉ d) : d.Contains (d.map fun _ => 0) := by
  rw [Shape.contains_iff_forall₂, List.forall₂_map_left_iff, List.forall₂_same]
  intro n hn
  exact Nat.pos_of_ne_zero fun hzero => h (hzero ▸ hn)

theorem linear_zeros (d : Shape) : d.linear (d.map fun _ => 0) = 0 := by
  induction d with
  | nil => rfl
  | cons n ds ih => rw [List.map_cons, Shape.linear, ih, Nat.zero_mul]

theorem standsAt_ofShape (d : Shape) : (ofShape d).StandsAt d 0 where
  shape := rfl
  finished := by rw [ofShape, List.contains_iff_mem, Nat.le_zero, List.prod_eq_zero_iff]
  shown hpos := by
    refine ⟨contains_zeros fun hzero => ?_, linear_zeros d⟩
    exact hpos.ne' (List.prod_eq_zero hzero)

theorem StandsAt.next_of_finished (h : o.StandsAt d k) (hk : d.prod ≤ k) :
    o.next = .ok (none, o) := by
  rw [Odometer.next, h.finished.mpr hk]
  rfl

/-- The next answer is the element shown, if there is one, and the odometer moves on by one. -/
theorem StandsAt.next (hwords : ∀ n ∈ d, n < Word.limit) (h : o.StandsAt d k) :
    ∃ o', o.next = .ok (d.grid[k]?, o') ∧ o'.StandsAt d (k + 1) := by
  by_cases hk : k < d.prod
  · obtain ⟨hcontains, hlinear⟩ := h.shown hk
    have hopen : o.finished = false := by
      apply Bool.eq_false_of_not_eq_true
      exact fun hfinished => absurd (h.finished.mp hfinished) (Nat.not_le.mpr hk)
    have hshown : d.grid[k]? = some o.current :=
      Shape.getElem?_grid_iff.mpr ⟨hcontains, hlinear⟩
    obtain ⟨coords, carry, hturn, hcarry, hcontains', hvalue⟩ :=
      turn_eq_ok hwords hcontains (le_refl 1)
    have hbelow := Shape.linear_lt_prod hcontains'
    rw [hlinear] at hvalue
    refine ⟨{ o with current := coords, finished := 0 < carry }, ?_, h.shape, ?_, ?_⟩
    · rw [Odometer.next, hopen, h.shape, hturn, hshown]
      rfl
    · rcases Nat.le_one_iff_eq_zero_or_eq_one.mp hcarry with rfl | rfl
      · simpa using by omega
      · simpa using by omega
    · intro hnext
      rcases Nat.le_one_iff_eq_zero_or_eq_one.mp hcarry with rfl | rfl
      · have hlinear' : d.linear coords = k + 1 := by omega
        exact ⟨hcontains', hlinear'⟩
      · omega
  · have hfinished := Nat.le_of_not_lt hk
    refine ⟨o, ?_, h.shape, ?_, fun hnext => by omega⟩
    · rw [h.next_of_finished hfinished, List.getElem?_eq_none (by rwa [Shape.length_grid])]
    · exact iff_of_true (h.finished.mpr hfinished) (by omega)

/-! ### Runs -/

theorem StandsAt.answers_eq_ok (hwords : ∀ n ∈ d, n < Word.limit) (h : o.StandsAt d k) (n : Nat) :
    o.answers n = .ok ((List.range' k n).map (d.grid[·]?)) := by
  induction n generalizing o k with
  | zero => rfl
  | succ n ih =>
      obtain ⟨o', hnext, hstands⟩ := h.next hwords
      rw [answers, hnext, Outcome.ok_bind]
      dsimp only
      rw [ih hstands]
      rfl

theorem StandsAt.take_eq_ok (hwords : ∀ n ∈ d, n < Word.limit) (h : o.StandsAt d k) (n : Nat) :
    o.take n = .ok ((d.grid.drop k).take n) := by
  induction n generalizing o k with
  | zero => rfl
  | succ n ih =>
      obtain ⟨o', hnext, hstands⟩ := h.next hwords
      rw [take, hnext, Outcome.ok_bind]
      cases hshown : d.grid[k]? with
      | none =>
          rw [List.drop_eq_nil_of_le (List.getElem?_eq_none_iff.mp hshown)]
          rfl
      | some coords =>
          obtain ⟨hk, rfl⟩ := List.getElem?_eq_some_iff.mp hshown
          dsimp only
          rw [ih hstands, List.drop_eq_getElem_cons hk]
          rfl

theorem elements_eq_grid (hwords : ∀ n ∈ d, n < Word.limit) : elements d = .ok d.grid := by
  have hall : d.foldl (· * ·) 1 = d.grid.length := by
    rw [Shape.length_grid, List.prod_eq_foldl]
  rw [elements, (standsAt_ofShape d).take_eq_ok hwords, List.drop_zero, hall, List.take_length]

/-! ### All elements -/

theorem decodeInto_eq_ok_iff {buffer : List Nat} (hbuffer : buffer.length = d.length)
    (hk : k < d.prod) : d.decodeInto k buffer = .ok coords ↔ d.grid[k]? = some coords := by
  obtain ⟨shown, hcontains, rfl⟩ := Shape.exists_linear_eq hk
  have hdecode := Shape.decodeInto_eq hbuffer hcontains (Shape.decode_linear hcontains)
  have hshown : d.grid[d.linear shown]? = some shown :=
    Shape.getElem?_grid_iff.mpr ⟨hcontains, rfl⟩
  rw [hdecode, hshown, Except.ok.injEq, Option.some.injEq]

/-- Sizes that fit into words are stepped through without overflow. The answers are the elements of
the space, each once and in lexicographic order, and after the last of them none for good. Element
`k` is the one that `k` decodes to. There are as many elements as the sizes multiply to, which is
what counting gives whenever it succeeds; it succeeds just when the product of every number of
leading sizes fits into a word. The elements of an index space are the answers for its sizes, and
those of the offsets below its size in order. -/
theorem answers_of_shape (d : Shape) (hwords : ∀ n ∈ d, n < Word.limit) :
    ∃ elements : List (List Nat),
      (∀ n, (ofShape d).answers n = .ok ((List.range n).map (elements[·]?)))
      ∧ Odometer.elements d = .ok elements
      ∧ (∀ coords, coords ∈ elements ↔ d.Contains coords)
      ∧ elements.Nodup ∧ elements.Pairwise (List.Lex (· < ·))
      ∧ (0 ∈ d → elements = []) ∧ (d = [] → elements = [[]])
      ∧ elements.length = d.prod
      ∧ (∀ n, d.count = .ok n ↔ n = elements.length ∧ ∀ i, (d.take i).prod < Word.limit)
      ∧ (0 ∉ d → d.prod < Word.limit → d.count = .ok elements.length)
      ∧ (∀ buffer : List Nat, buffer.length = d.length → ∀ k, k < elements.length →
        ∀ coords, d.decodeInto k buffer = .ok coords ↔ elements[k]? = some coords)
      ∧ ∀ (s : Space) (c : Catalog), s.sizes c = .ok d →
        s.elements c = .ok elements
          ∧ ∀ n, s.size c = .ok n → s.elements c = (List.range n).mapM (s.ofOffset c) := by
  refine ⟨d.grid, fun n => ?_, elements_eq_grid hwords, fun coords => Shape.mem_grid_iff,
    d.nodup_grid, d.lexicographic_grid, Shape.grid_eq_nil, ?_, d.length_grid, ?_, ?_, ?_, ?_⟩
  · rw [(standsAt_ofShape d).answers_eq_ok hwords, List.range_eq_range']
  · rintro rfl
    rfl
  · intro n
    rw [d.length_grid]
    exact Shape.count_eq_ok_iff
  · rw [d.length_grid]
    exact Shape.count_of_pos
  · intro buffer hbuffer k hk coords
    rw [d.length_grid] at hk
    exact decodeInto_eq_ok_iff hbuffer hk
  · intro s c hsizes
    refine ⟨?_, fun n hsize => Space.elements_eq_mapM_ofOffset hsize⟩
    rw [Space.elements, hsizes, Outcome.ok_bind, Shape.coords_eq_grid]
    rfl

/-- A space of two by one by three elements, and one of two by none by three. -/
theorem answers_of_twoByOneByThree :
    (∀ n ∈ [2, 1, 3], n < Word.limit)
      ∧ (∃ elements : List (List Nat),
        (ofShape [2, 1, 3]).answers 8 = .ok ((List.range 8).map (elements[·]?))
          ∧ elements.length = 6 ∧ elements[4]? = some [1, 0, 1])
      ∧ (ofShape [2, 0, 3]).answers 2 = .ok [none, none] := by
  have hwords : ∀ n ∈ [2, 1, 3], n < Word.limit := by decide
  have hwords' : ∀ n ∈ [2, 0, 3], n < Word.limit := by decide
  obtain ⟨elements, hanswers, -, -, -, -, -, -, hlength, -, -, hdecode, -⟩ :=
    answers_of_shape [2, 1, 3] hwords
  obtain ⟨nothing, hnone, -, -, -, -, hempty, -⟩ := answers_of_shape [2, 0, 3] hwords'
  have hlength' : elements.length = 6 := hlength
  refine ⟨hwords, ⟨elements, hanswers 8, hlength', ?_⟩, ?_⟩
  · exact (hdecode [9, 9, 9] rfl 4 (by omega) [1, 0, 1]).mp rfl
  · rw [hnone, hempty (by decide)]
    rfl

/-- A space with an empty dimension has no elements, whichever dimension that is, but when the sizes
before the empty one are too large together, they cannot be counted. -/
theorem count_of_hollowShape :
    let d : Shape := [2 ^ 40, 2 ^ 40, 0]
    (∀ n ∈ d, n < Word.limit) ∧ d.prod < Word.limit
      ∧ (ofShape d).answers 1 = .ok [none]
      ∧ d.count = .trap .mulOverflow
      ∧ Shape.count [0, 2 ^ 40, 2 ^ 40] = .ok 0 := by
  decide

end Odometer

end LinearProgram
