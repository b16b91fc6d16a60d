import LinearProgram.Proofs.Catalog.Members

/-!
Integers in a range. There are three ways from an integer to its position: by the lower end alone,
with the position held against the size afterwards; by its decimal form, which is held against both
ends; and from the position that it has in another range. Where they all apply they agree, and the
integer at the position is the one that was looked for.
-/

namespace LinearProgram

namespace Dimension

variable {d e : Dimension} {a b v : Int} {last last' : RangeEnd} {k r : Nat}

theorem ofValue_of_lt (hextent : d.extent = .range a last) (h : v < a) :
    d.ofValue v = .refuse (.belowFirst v a d.name) := by
  rw [ofValue, lower_of_range hextent, Outcome.ok_bind, if_pos h]

theorem ofValue_of_le (hextent : d.extent = .range a last) (h : a ≤ v) :
    d.ofValue v = do return (← Signed.sub v a).toNat := by
  rw [ofValue, lower_of_range hextent, Outcome.ok_bind, if_neg (by omega)]

/-- An integer has a position if it is not below the lower end and not too far above. -/
theorem ofValue_eq_ok_iff (hextent : d.extent = .range a last) :
    d.ofValue v = .ok k ↔ Signed.fits k = true ∧ a + k = v := by
  rcases lt_or_ge v a with h | h
  · rw [ofValue_of_lt hextent h]
    exact iff_of_false (Outcome.refuse_ne_ok _ _) (by omega)
  · rw [ofValue_of_le hextent h, Outcome.bind_eq_ok_iff]
    constructor
    · rintro ⟨span, hspan, heq⟩
      obtain ⟨hfits, rfl⟩ := Signed.sub_eq_ok_iff.mp hspan
      obtain rfl := Except.ok.inj heq
      rw [Int.toNat_of_nonneg (by omega)]
      exact ⟨hfits, by omega⟩
    · rintro ⟨hfits, rfl⟩
      exact ⟨k, Signed.sub_add_left hfits a, rfl⟩

/-- Looking for an integer traps just if it is further from the lower end than a signed word can
say. -/
theorem ofValue_trap_iff (hextent : d.extent = .range a last) :
    (∃ t, d.ofValue v = .error (.trap t)) ↔ Word.limit ≤ 2 * (v - a) := by
  have hlimit : (0 : Int) < Word.limit := by decide
  rcases lt_or_ge v a with h | h
  · rw [ofValue_of_lt hextent h]
    refine iff_of_false ?_ (by omega)
    rintro ⟨t, ht⟩
    cases ht
  · rw [ofValue_of_le hextent h]
    cases hspan : Signed.sub v a with
    | ok span =>
        obtain ⟨hfits, -⟩ := Signed.sub_eq_ok_iff.mp hspan
        rw [Signed.fits_iff] at hfits
        refine iff_of_false ?_ (by omega)
        rintro ⟨t, ht⟩
        cases ht
    | error f =>
        obtain ⟨hfits, rfl⟩ := Outcome.check_eq_error_iff.mp hspan
        rw [Signed.fits_iff] at hfits
        exact iff_of_true ⟨_, rfl⟩ (by omega)

/-! ### From one range to another -/

theorem convert_of_fits (hd : d.extent = .range a last) (hr : 2 * r < Word.limit)
    (hfits : Signed.fits (a + r) = true) (e : Dimension) : d.convert e r = e.ofValue (a + r) := by
  rw [convert, value_of_fits hd hr hfits, Outcome.ok_bind]

/-- A position in another range stands for the same integer, and the way back from it leads to the
position that it came from. -/
theorem convert_eq_ok (hd : d.extent = .range a last) (he : e.extent = .range b last')
    (hr : 2 * r < Word.limit) (hfits : Signed.fits (a + r) = true)
    (h : d.convert e r = .ok k) : e.value k = .ok (a + r) ∧ e.convert d k = .ok r := by
  rw [convert_of_fits hd hr hfits, ofValue_eq_ok_iff he] at h
  obtain ⟨hk, heq⟩ := h
  rw [Signed.fits_iff] at hk
  rw [← heq] at hfits
  refine ⟨heq ▸ value_of_fits he (by omega) hfits, ?_⟩
  rw [convert_of_fits he (by omega) hfits, ofValue_eq_ok_iff hd, Signed.fits_iff]
  exact ⟨by omega, heq.symm⟩

end Dimension

namespace Catalog

variable {c : Catalog} {d : Dimension} {a v last : Int} {e : RangeEnd} {k n : Nat}

theorem fits_of_size (hextent : d.extent = .range a e) (hupper : c.upper d e = .ok last)
    (hsize : c.size d = .ok n) (h : a ≤ last) : Signed.fits (last - a) = true := by
  unfold size at hsize
  rw [hextent] at hsize
  simp only [hupper, Outcome.ok_bind] at hsize
  rw [if_neg (by omega)] at hsize
  obtain ⟨span, hspan, -⟩ := Outcome.bind_eq_ok_iff.mp hsize
  exact (Signed.sub_eq_ok_iff.mp hspan).1

/-- The size of a range with known ends is known, unless it is too great to be said. -/
theorem exists_size (hextent : d.extent = .range a e) (hupper : c.upper d e = .ok last)
    (htrap : ∀ t, c.size d ≠ .error (.trap t)) : ∃ n, c.size d = .ok n := by
  cases hsize : c.size d with
  | ok n => exact ⟨n, rfl⟩
  | error f =>
      exfalso
      have hf := hsize
      unfold size at hf
      rw [hextent] at hf
      simp only [hupper, Outcome.ok_bind] at hf
      split at hf
      · cases hf
      rcases Outcome.bind_eq_error_iff.mp hf with hspan | ⟨span, -, hrest⟩
      · obtain ⟨-, rfl⟩ := Outcome.check_eq_error_iff.mp hspan
        exact htrap _ hsize
      rcases Outcome.bind_eq_error_iff.mp hrest with htotal | ⟨total, -, hdone⟩
      · obtain ⟨-, rfl⟩ := Outcome.check_eq_error_iff.mp htotal
        exact htrap _ hsize
      · cases hdone

theorem member_eq_ok_iff :
    c.member d v = .ok k ↔ d.ofValue v = .ok k ∧ ∃ n, c.size d = .ok n ∧ k < n := by
  rw [member, Outcome.bind_eq_ok_iff]
  constructor
  · rintro ⟨k', hk', hrest⟩
    obtain ⟨n, hn, hbelow⟩ := Outcome.bind_eq_ok_iff.mp hrest
    split at hbelow
    · cases hbelow
      rename_i hlt
      exact ⟨hk', n, hn, hlt⟩
    · cases hbelow
  · rintro ⟨hk, n, hn, hlt⟩
    refine ⟨k, hk, ?_⟩
    rw [hn, Outcome.ok_bind, if_pos hlt]
    rfl

theorem indexOf_toString_eq_ok_iff (hextent : d.extent = .range a e)
    (hv : Signed.fits v = true) : c.indexOf d (toString v) = .ok k
      ↔ Signed.fits k = true ∧ a + k = v ∧ ∃ last, c.upper d e = .ok last ∧ v ≤ last := by
  rw [indexOf_eq_ok_iff_of_range hextent, Text.integer?_toString hv]
  constructor
  · rintro ⟨last, v', hlast, hread, hle, hfits, hvalue⟩
    cases hread
    exact ⟨hfits, hvalue, last, hlast, hle⟩
  · rintro ⟨hfits, hvalue, last, hlast, hle⟩
    exact ⟨last, v, hlast, rfl, hle, hfits, hvalue⟩

/-- Where the size of a range is no trap, an integer is a member just if its decimal form is a
label, and the position is the same. -/
theorem member_eq_ok_iff_indexOf (hextent : d.extent = .range a e) (hv : Signed.fits v = true)
    (htrap : ∀ t, c.size d ≠ .error (.trap t)) :
    c.member d v = .ok k ↔ c.indexOf d (toString v) = .ok k := by
  rw [member_eq_ok_iff, Dimension.ofValue_eq_ok_iff hextent]
  constructor
  · rintro ⟨⟨hfits, rfl⟩, n, hn, hk⟩
    obtain ⟨last, hlast, -, hle⟩ := size_of_range hextent hn hk
    exact (indexOf_toString_eq_ok_iff hextent hv).mpr ⟨hfits, rfl, last, hlast, hle⟩
  · intro hindex
    obtain ⟨hfits, hvalue, last, hlast, -⟩ := (indexOf_toString_eq_ok_iff hextent hv).mp hindex
    obtain ⟨n, hn⟩ := exists_size hextent hlast htrap
    exact ⟨⟨hfits, hvalue⟩, n, hn, lt_size_of_indexOf hn hindex⟩

theorem label_of_member (hextent : d.extent = .range a e) (hv : Signed.fits v = true)
    (h : c.member d v = .ok k) : d.value k = .ok v ∧ c.label d k = .ok (toString v) := by
  obtain ⟨hk, n, hn, hlt⟩ := member_eq_ok_iff.mp h
  obtain ⟨hfits, rfl⟩ := (Dimension.ofValue_eq_ok_iff hextent).mp hk
  rw [Signed.fits_iff] at hfits
  have hvalue := Dimension.value_of_fits hextent (by omega) hv
  refine ⟨hvalue, ?_⟩
  rw [label_of_range hextent hn, if_neg (by omega), hvalue]
  rfl

/-- Looking for a member traps just if the integer is further from the lower end than a signed word
can say. -/
theorem member_trap_iff (hextent : d.extent = .range a e)
    (htrap : ∀ t, c.size d ≠ .error (.trap t)) :
    (∃ t, c.member d v = .error (.trap t)) ↔ Word.limit ≤ 2 * (v - a) := by
  rw [← Dimension.ofValue_trap_iff hextent]
  refine exists_congr fun t => ?_
  rw [member, Outcome.bind_eq_error_iff]
  constructor
  · rintro (h | ⟨k, -, hrest⟩)
    · exact h
    rcases Outcome.bind_eq_error_iff.mp hrest with hsize | ⟨n, -, hbelow⟩
    · exact absurd hsize (htrap t)
    · split at hbelow
      · cases hbelow
      · cases hbelow
  · exact Or.inl

/-- Of two ranges that end with the same integer, the second has a position for each integer that
the first has a position for and that it does not start behind. -/
theorem exists_convert {d' : Dimension} {b : Int} {e' : RangeEnd} {n' r : Nat} (hc : c.InWords)
    (hd : d.InWords) (hextent : d.extent = .range a e) (hextent' : d'.extent = .range b e')
    (hupper : c.upper d e = .ok last) (hupper' : c.upper d' e' = .ok last)
    (hsize : c.size d = .ok n) (hsize' : c.size d' = .ok n') (hr : r < n) (hb : b ≤ a + r) :
    ∃ k, k < n' ∧ d.convert d' r = .ok k := by
  obtain ⟨last', hlast', hspan, hle⟩ := size_of_range hextent hsize hr
  cases hupper.symm.trans hlast'
  obtain ⟨hfits, hvalue⟩ := value_of_range hc hd hextent hsize hr
  have hspan' := fits_of_size hextent' hupper' hsize' (by omega)
  rw [Signed.fits_iff] at hspan'
  have hk : b + ((a + r - b).toNat : Int) = a + r := by omega
  have hkfits : Signed.fits ((a + r - b).toNat : Nat) = true := Signed.fits_iff.mpr (by omega)
  refine ⟨(a + r - b).toNat, ?_, ?_⟩
  · refine lt_size_of_indexOf (l := toString (a + r : Int)) hsize' ?_
    exact (indexOf_toString_eq_ok_iff hextent' hfits).mpr ⟨hkfits, hk, last, hupper', hle⟩
  · rw [Dimension.convert, hvalue, Outcome.ok_bind, Dimension.ofValue_eq_ok_iff hextent']
    exact ⟨hkfits, hk⟩

/-- Positions and integers of two ranges that start with `a` and `b`. The integer at a position has
that position. The position goes over to the other range just if the integer there is not below
`b`; then it stands for the same integer and goes back to where it came from. If a catalog has the
same last element for both and can say their sizes, a position within the first goes over to one
within the second. Where the size of the first can be said or a limit is missing, an integer and
its decimal form have the same position, which stands for the integer and has the decimal form for
its label, or neither has one; and to look for the integer traps just if it is further above `a`
than a signed word can say. The integers involved are signed words. -/
theorem range_positions (d d' : Dimension) {a b : Int} {e e' : RangeEnd}
    (hd : d.extent = .range a e) (hd' : d'.extent = .range b e') (hwords : d.InWords) :
    (∀ r : Nat, 2 * r < Word.limit → Signed.fits (a + r) = true →
        Signed.fits (a + r - b) = true →
        d.value r = .ok (a + r) ∧ d.ofValue (a + r) = .ok r
          ∧ ((∃ k, d.convert d' r = .ok k) ↔ b ≤ a + r)
          ∧ (a + r < b → d.convert d' r = .refuse (.belowFirst (a + r) b d'.name))
          ∧ ∀ k, d.convert d' r = .ok k → d'.value k = .ok (a + r) ∧ d'.convert d k = .ok r)
      ∧ (∀ (c : Catalog) (last : Int) (n n' : Nat), c.InWords → c.upper d e = .ok last →
        c.upper d' e' = .ok last → c.size d = .ok n → c.size d' = .ok n' →
        ∀ (r : Nat) (v : Int), r < n → d.value r = .ok v → b ≤ v →
          ∃ k, k < n' ∧ d.convert d' r = .ok k)
      ∧ ∀ c : Catalog, (∀ t, c.size d ≠ .error (.trap t)) → ∀ v, Signed.fits v = true →
        ((∃ k, c.member d v = .ok k ∧ c.indexOf d (toString v) = .ok k ∧ d.value k = .ok v
            ∧ c.label d k = .ok (toString v))
          ∨ ((∀ k, c.member d v ≠ .ok k) ∧ ∀ k, c.indexOf d (toString v) ≠ .ok k))
        ∧ ((∃ t, c.member d v = .error (.trap t)) ↔ Word.limit ≤ 2 * (v - a)) := by
  refine ⟨fun r hr hfits hspan => ?_, ?_, fun c htrap v hv => ⟨?_, member_trap_iff hd htrap⟩⟩
  · refine ⟨Dimension.value_of_fits hd hr hfits, ?_, ?_, fun hb => ?_, fun k => ?_⟩
    · rw [Dimension.ofValue_eq_ok_iff hd, Signed.fits_iff]
      exact ⟨by omega, rfl⟩
    · rw [Dimension.convert_of_fits hd hr hfits]
      simp only [Dimension.ofValue_eq_ok_iff hd']
      constructor
      · rintro ⟨k, -, hk⟩
        omega
      · intro hb
        refine ⟨(a + r - b).toNat, ?_, by omega⟩
        rwa [Int.toNat_of_nonneg (by omega)]
    · rw [Dimension.convert_of_fits hd hr hfits, Dimension.ofValue_of_lt hd' hb]
    · exact Dimension.convert_eq_ok hd hd' hr hfits
  · intro c last n n' hc hupper hupper' hsize hsize' r v hr hv hb
    obtain ⟨-, hvalue⟩ := value_of_range hc hwords hd hsize hr
    obtain rfl := Except.ok.inj (hvalue.symm.trans hv)
    exact exists_convert hc hwords hd hd' hupper hupper' hsize hsize' hr hb
  · have hboth (k : Nat) := member_eq_ok_iff_indexOf (k := k) hd hv htrap
    by_cases hmember : ∃ k, c.member d v = .ok k
    · obtain ⟨k, hk⟩ := hmember
      obtain ⟨hvalue, hlabel⟩ := label_of_member hd hv hk
      exact .inl ⟨k, hk, (hboth k).mp hk, hvalue, hlabel⟩
    · rw [not_exists] at hmember
      exact .inr ⟨hmember, fun k hk => hmember k ((hboth k).mpr hk)⟩

/-- Weeks with and without those before the first, up to a week that is given. -/
def earlyWeeks : Dimension := ⟨"WEEK0", .range (-2) (.limit "T")⟩

def weeks : Dimension := ⟨"WEEK", .range (-1) (.limit "T")⟩

/-- From one range of weeks to the other and back, to an integer and to one beyond the end, in vain
where there is no end, and too far. -/
theorem range_positions_of_weeks :
    let c : Catalog := ⟨[], [("T", 3)], false⟩
    (∃ k, k < 5 ∧ earlyWeeks.convert weeks 1 = .ok k ∧ weeks.value k = .ok (-1)
        ∧ weeks.convert earlyWeeks k = .ok 1)
      ∧ earlyWeeks.convert weeks 0 = .refuse (.belowFirst (-2) (-1) "WEEK")
      ∧ (∃ k, c.member earlyWeeks (-1) = .ok k ∧ c.indexOf earlyWeeks (toString (-1 : Int)) = .ok k
        ∧ earlyWeeks.value k = .ok (-1) ∧ c.label earlyWeeks k = .ok (toString (-1 : Int)))
      ∧ (∀ k, c.indexOf earlyWeeks (toString (4 : Int)) ≠ .ok k)
      ∧ (∀ k, Catalog.empty.indexOf earlyWeeks (toString (3 : Int)) ≠ .ok k)
      ∧ ∃ t, c.member earlyWeeks 0x7FFF_FFFF_FFFF_FFFF = .error (.trap t) := by
  intro c
  obtain ⟨hpositions, hsizes, hmembers⟩ := range_positions earlyWeeks weeks rfl rfl
    (by decide)
  have hsize : c.size earlyWeeks = .ok 6 := by decide
  have hneither {c' : Catalog} {v : Int} (htrap : ∀ t, c'.size earlyWeeks ≠ .error (.trap t))
      (hv : Signed.fits v = true) (hnone : ∀ k, c'.member earlyWeeks v ≠ .ok k) :
      ∀ k, c'.indexOf earlyWeeks (toString v) ≠ .ok k := by
    rcases (hmembers c' htrap v hv).1 with ⟨k, hk, -⟩ | ⟨-, hno⟩
    · exact absurd hk (hnone k)
    · exact hno
  have htrap : ∀ t, c.size earlyWeeks ≠ .error (.trap t) := by
    rw [hsize]
    rintro t ⟨⟩
  refine ⟨?_, ?_, ?_, hneither htrap (by decide) ?_, hneither ?_ (by decide) ?_, ?_⟩
  · obtain ⟨k, hk, hconvert⟩ := hsizes c 3 6 5 (by decide) rfl rfl hsize (by decide) 1 (-1)
      (by decide) (by decide) (by decide)
    obtain ⟨-, -, -, -, hback⟩ := hpositions 1 (by decide) (by decide) (by decide)
    exact ⟨k, hk, hconvert, hback k hconvert⟩
  · obtain ⟨-, -, -, hbelow, -⟩ := hpositions 0 (by decide) (by decide) (by decide)
    exact hbelow (by decide)
  · rcases (hmembers c htrap (-1) (by decide)).1 with hboth | ⟨hno, -⟩
    · exact hboth
    · exact absurd (by decide : c.member earlyWeeks (-1) = .ok 1) (hno 1)
  · rw [show c.member earlyWeeks 4 = .refuse (.beyondLast 4 "WEEK0") by decide]
    rintro k ⟨⟩
  · rintro t ⟨⟩
  · rintro k ⟨⟩
  · exact (hmembers c htrap _ (by decide)).2.mpr (by decide)

end Catalog

end LinearProgram
