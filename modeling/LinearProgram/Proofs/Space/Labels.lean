import LinearProgram.Proofs.Catalog.Edits

/-!
Elements of a space by offset, by label and by name. Each way of addressing an element leads to the
same coordinates: an offset below the size decodes to coordinates in range, their labels resolve to
them, and so do the parts of their name when no label has a comma. A label that resolves is, up to
the spelling of integers, the label of what it resolves to.
-/

namespace LinearProgram

namespace Text

/-- The texts between the commas of a text. -/
def commaParts (text : String) : List String := (text.toList.splitOn ',').map String.ofList

theorem commaParts_intercalate {ls : List String} (h : ∀ l ∈ ls, ',' ∉ l.toList) (hne : ls ≠ []) :
    commaParts (",".intercalate ls) = ls := by
  have hparts : ∀ cs ∈ ls.map String.toList, ',' ∉ cs := List.forall_mem_map.mpr h
  have hne' : ls.map String.toList ≠ [] := fun heq => hne (List.map_eq_nil_iff.mp heq)
  have hcomma : ",".toList = [','] := rfl
  rw [commaParts, String.toList_intercalate, hcomma, List.splitOn_intercalate ',' hparts hne',
    List.map_map]
  simp

theorem comma_notMem_toString (v : Int) : ',' ∉ (toString v).toList := by
  intro h
  rcases mem_toList_repr h with hsign | hdigit
  · exact absurd hsign (by decide)
  · exact absurd hdigit (by decide)

end Text

/-- The label as the dimension writes it: the given one itself if it is one of a set, the decimal
form of the integer that is given if it is one of a range. -/
def Dimension.Spells (d : Dimension) (given label : String) : Prop :=
  match d.extent with
  | .labelled => label = given
  | .range .. => ∃ v, Text.integer? given = some v ∧ label = toString v

/-- The value given to a limit is a signed word. -/
def Edit.InWords : Edit → Prop
  | .limit _ v => Signed.fits v = true
  | .label .. | .freeze => True

instance : (e : Edit) → Decidable e.InWords
  | .limit _ v => inferInstanceAs (Decidable (Signed.fits v = true))
  | .label .. | .freeze => inferInstanceAs (Decidable True)

namespace Catalog

variable {c : Catalog} {d : Dimension} {k n : Nat} {l given : String}

theorem inWords_edit (hc : c.InWords) {e : Edit} (he : e.InWords) : (c.edit e).2.InWords := by
  have hstep := c.step_edit e
  generalize (c.edit e).1 = o at hstep
  generalize (c.edit e).2 = c' at hstep
  cases hstep with
  | label hadd =>
      obtain ⟨-, -, -, -, rfl⟩ := addLabel_eq_ok hadd
      exact hc
  | limit hset =>
      obtain ⟨-, rfl⟩ := setLimit_eq_ok hset
      intro p hp
      rcases Keyed.mem_put hp with rfl | hp
      · exact he
      · exact hc p hp
  | freeze => exact hc
  | rejected hf => exact hc

theorem InWords.edits (hc : c.InWords) {es : List Edit} (hes : ∀ e ∈ es, e.InWords) :
    (c.edits es).InWords := by
  induction es generalizing c with
  | nil => exact hc
  | cons e es ih =>
      obtain ⟨he, hrest⟩ := List.forall_mem_cons.mp hes
      exact ih (inWords_edit hc he) hrest

/-- A label that has a position is a spelling of the label at that position. -/
theorem label_of_indexOf (hdistinct : c.Distinct) (hc : c.InWords) (hd : d.InWords)
    (hsize : c.size d = .ok n) (h : c.indexOf d given = .ok k) :
    ∃ l, c.label d k = .ok l ∧ c.indexOf d l = .ok k ∧ d.Spells given l := by
  have hk := lt_size_of_indexOf hsize h
  obtain ⟨l, hlabel, hindex⟩ := indexOf_label hdistinct hc hd hsize hk
  refine ⟨l, hlabel, hindex, ?_⟩
  unfold Dimension.Spells
  cases hextent : d.extent with
  | labelled =>
      rw [indexOf_eq_ok_iff_label hdistinct hextent, hlabel, Except.ok.injEq] at h
      exact h
  | range lower e =>
      obtain ⟨-, v, -, hread, -, -, rfl⟩ := (indexOf_eq_ok_iff_of_range hextent).mp h
      rw [label_of_value hc hd hextent hsize hk, Except.ok.injEq] at hlabel
      exact ⟨_, hread, hlabel.symm⟩

theorem comma_notMem_label (hplain : d.extent = .labelled → ∀ l ∈ c.labels d, ',' ∉ l.toList)
    (h : c.label d k = .ok l) : ',' ∉ l.toList := by
  cases hextent : d.extent with
  | labelled =>
      rw [label_eq_ok_iff hextent] at h
      exact hplain hextent l (List.mem_of_getElem? h)
  | range lower e =>
      obtain ⟨size, hsize, -⟩ := Outcome.bind_eq_ok_iff.mp h
      rw [label_of_range hextent hsize] at h
      split at h
      · cases h
      · obtain ⟨v, -, hv⟩ := Outcome.bind_eq_ok_iff.mp h
        cases hv
        exact Text.comma_notMem_toString v

end Catalog

namespace Space

variable {c : Catalog} {s : Space} {coords : List Nat} {given labels : List String} {k n : Nat}

/-! ### From offsets to labels -/

theorem exists_ofOffset_iff (hsize : s.size c = .ok n) :
    (∃ coords, s.ofOffset c k = .ok coords) ↔ k < n := by
  constructor
  · rintro ⟨coords, hcoords⟩
    by_contra hk
    rw [ofOffset_of_le hsize (Nat.le_of_not_lt hk)] at hcoords
    cases hcoords
  · intro hk
    obtain ⟨coords, hrange, hoffset⟩ := exists_element hsize hk
    obtain ⟨k', -, hoffset', hback⟩ := exists_offset hsize hrange
    cases hoffset.symm.trans hoffset'
    exact ⟨coords, hback⟩

theorem offset_of_ofOffset (hsize : s.size c = .ok n) (h : s.ofOffset c k = .ok coords) :
    s.offset c coords = .ok k := by
  obtain ⟨coords', hrange, hoffset⟩ := exists_element hsize ((exists_ofOffset_iff hsize).mp ⟨_, h⟩)
  obtain ⟨k', -, hoffset', hback⟩ := exists_offset hsize hrange
  cases hoffset.symm.trans hoffset'
  cases h.symm.trans hback
  exact hoffset

theorem comma_notMem_labels
    (hplain : ∀ d ∈ s, d.extent = .labelled → ∀ l ∈ c.labels d, ',' ∉ l.toList)
    (h : s.labels c coords = .ok labels) : ∀ l ∈ labels, ',' ∉ l.toList := by
  intro l hl
  obtain ⟨⟨d, i⟩, hmem, hlabel⟩ := Outcome.exists_of_mem_mapM h hl
  exact Catalog.comma_notMem_label (hplain d (List.of_mem_zip hmem).1) hlabel

theorem commaParts_of_labelText
    (hplain : ∀ d ∈ s, d.extent = .labelled → ∀ l ∈ c.labels d, ',' ∉ l.toList) (hs : s ≠ [])
    (hrange : s.InRange c coords) (h : s.ofOffset c k = .ok coords)
    (hlabels : s.labels c coords = .ok labels) :
    ∃ name, s.labelText c k = .ok name ∧ Text.commaParts name = labels := by
  have hlength := length_labels hrange hlabels
  have hne : labels ≠ [] := by
    rintro rfl
    exact hs (List.length_eq_zero_iff.mp hlength.symm)
  refine ⟨",".intercalate labels, ?_, ?_⟩
  · rw [labelText, h, Outcome.ok_bind, hlabels]
    rfl
  · exact Text.commaParts_intercalate (comma_notMem_labels hplain hlabels) hne

/-! ### From labels to offsets -/

/-- Labels that resolve are spellings of the labels of what they resolve to, place by place. -/
theorem spells_of_resolve (hdistinct : c.Distinct) (hc : c.InWords) (hs : ∀ d ∈ s, d.InWords)
    {sizes : Shape} (hsizes : s.sizes c = .ok sizes) (hlength : given.length = s.length)
    (h : s.resolve c given = .ok coords) (hlabels : s.labels c coords = .ok labels) :
    ∀ (i : Nat) (d : Dimension) (g l : String), s[i]? = some d → given[i]? = some g →
      labels[i]? = some l → d.Spells g l := by
  rw [sizes_eq_ok_iff] at hsizes
  induction hsizes generalizing given coords labels with
  | nil =>
      intro i d g l hd
      cases hd
  | @cons d n s ns hsize _ ih =>
      obtain ⟨hd, hrest⟩ := List.forall_mem_cons.mp hs
      cases given with
      | nil => cases hlength
      | cons g gs =>
          rw [resolve_cons] at h
          obtain ⟨k, hk, htail⟩ := Outcome.bind_eq_ok_iff.mp h
          obtain ⟨ks, hks, heq⟩ := Outcome.bind_eq_ok_iff.mp htail
          cases heq
          rw [labels_cons] at hlabels
          obtain ⟨l, hl, htail⟩ := Outcome.bind_eq_ok_iff.mp hlabels
          obtain ⟨ls, hls, heq⟩ := Outcome.bind_eq_ok_iff.mp htail
          cases heq
          obtain ⟨l', hl', -, hspells⟩ := Catalog.label_of_indexOf hdistinct hc hd hsize hk
          cases hl.symm.trans hl'
          intro i e g' l'' he hg hl''
          cases i with
          | zero =>
              cases he
              cases hg
              cases hl''
              exact hspells
          | succ i => exact ih hrest (Nat.succ.inj hlength) hks hls i e g' l'' he hg hl''

/-- After any requests on index data, in every space whose size can be worked out: the offsets below
the size, and no others, belong to elements, whose offsets they are; the labels of an element
resolve to it, and so do the parts of its name between the commas when no label has a comma. Labels
that resolve give an element in range, whose own labels resolve to it too and are the labels given,
or for a range the decimal forms of the integers given. -/
theorem labels_correspond_to_offsets (es : List Edit) (hes : ∀ e ∈ es, e.InWords) (s : Space)
    (hs : ∀ d ∈ s, d.InWords) (n : Nat) (hsize : s.size (Catalog.empty.edits es) = .ok n) :
    let c := Catalog.empty.edits es
    (∀ k, (∃ coords, s.ofOffset c k = .ok coords) ↔ k < n)
      ∧ (∀ k coords, s.ofOffset c k = .ok coords → s.offset c coords = .ok k
        ∧ ∃ labels, s.labels c coords = .ok labels ∧ s.resolve c labels = .ok coords)
      ∧ ((∀ d ∈ s, d.extent = .labelled → ∀ l ∈ c.labels d, ',' ∉ l.toList) → s ≠ [] →
        ∀ k, k < n → ∃ name coords, s.labelText c k = .ok name
          ∧ (Text.commaParts name).length = s.length
          ∧ s.resolve c (Text.commaParts name) = .ok coords ∧ s.offset c coords = .ok k)
      ∧ ∀ (given : List String) (coords : List Nat), given.length = s.length →
        s.resolve c given = .ok coords → s.InRange c coords
          ∧ ∃ labels, s.labels c coords = .ok labels ∧ s.resolve c labels = .ok coords
            ∧ labels.length = s.length
            ∧ ∀ (i : Nat) (d : Dimension) (g l : String), s[i]? = some d → given[i]? = some g →
              labels[i]? = some l → d.Spells g l := by
  intro c
  have hdistinct : c.Distinct := Catalog.distinct_empty.edits es
  have hc : c.InWords := Catalog.InWords.edits (by simp [Catalog.InWords, Catalog.empty]) hes
  have hback : ∀ k coords, s.ofOffset c k = .ok coords → s.offset c coords = .ok k :=
    fun k coords => offset_of_ofOffset hsize
  refine ⟨fun k => exists_ofOffset_iff hsize, fun k coords h => ⟨hback k coords h, ?_⟩, ?_, ?_⟩
  · exact exists_labels hdistinct hc hs (inRange_of_offset (hback k coords h))
  · intro hplain hne k hk
    obtain ⟨coords, h⟩ := (exists_ofOffset_iff hsize).mpr hk
    have hrange := inRange_of_offset (hback k coords h)
    obtain ⟨labels, hlabels, hresolve⟩ := exists_labels hdistinct hc hs hrange
    obtain ⟨name, hname, rfl⟩ := commaParts_of_labelText hplain hne hrange h hlabels
    exact ⟨name, coords, hname, length_labels hrange hlabels, hresolve, hback k coords h⟩
  · intro given coords hlength hresolve
    obtain ⟨sizes, hsizes, -⟩ := size_eq_ok hsize
    have hrange := inRange_of_resolve hsizes hlength hresolve
    obtain ⟨labels, hlabels, hresolve'⟩ := exists_labels hdistinct hc hs hrange
    exact ⟨hrange, labels, hlabels, hresolve', length_labels hrange hlabels,
      spells_of_resolve hdistinct hc hs hsizes hlength hresolve hlabels⟩

/-- Two labels, and the last element of a range that starts below zero. -/
def signedEdits : List Edit :=
  [.label ⟨"A", .labelled⟩ "x", .label ⟨"A", .labelled⟩ "y z", .limit "N" (-1)]

def signedSpace : Space := [⟨"A", .labelled⟩, ⟨"R", .range (-3) (.limit "N")⟩]

theorem labels_of_signedSpace :
    let c := Catalog.empty.edits signedEdits
    (∀ e ∈ signedEdits, e.InWords) ∧ (∀ d ∈ signedSpace, d.InWords)
      ∧ signedSpace.size c = .ok 6
      ∧ (∃ name coords, signedSpace.labelText c 4 = .ok name
        ∧ signedSpace.resolve c (Text.commaParts name) = .ok coords
        ∧ signedSpace.offset c coords = .ok 4)
      ∧ signedSpace.resolve c ["y z", " -03 "] = .ok [1, 0]
      ∧ ∃ labels, signedSpace.labels c [1, 0] = .ok labels ∧ labels[0]? = some "y z"
        ∧ ∃ v, Text.integer? " -03 " = some v ∧ labels[1]? = some (toString v) := by
  intro c
  have hedits : ∀ e ∈ signedEdits, e.InWords := by decide
  have hspace : ∀ d ∈ signedSpace, d.InWords := by decide
  have hsize : signedSpace.size c = .ok 6 := by decide
  have hresolve : signedSpace.resolve c ["y z", " -03 "] = .ok [1, 0] := by decide
  obtain ⟨-, -, hnames, hlabels⟩ :=
    labels_correspond_to_offsets signedEdits hedits signedSpace hspace 6 hsize
  obtain ⟨name, coords, hname, -, hparts, hoffset⟩ :=
    hnames (by decide) (List.cons_ne_nil _ _) 4 (by decide)
  obtain ⟨-, labels, hlabel, -, hlength, hspells⟩ := hlabels _ _ rfl hresolve
  have hlength' : labels.length = 2 := hlength
  have hfirst := List.getElem?_eq_getElem (show 0 < labels.length by omega)
  have hsecond := List.getElem?_eq_getElem (show 1 < labels.length by omega)
  have hset : labels[0] = "y z" := hspells 0 _ _ _ rfl rfl hfirst
  obtain ⟨v, hread, hwritten⟩ : ∃ v, Text.integer? " -03 " = some v ∧ labels[1] = toString v :=
    hspells 1 _ _ _ rfl rfl hsecond
  refine ⟨hedits, hspace, hsize, ⟨name, coords, hname, hparts, hoffset⟩, hresolve, labels, hlabel,
    ?_, v, hread, ?_⟩
  · rw [hfirst, hset]
  · rw [hsecond, hwritten]

end Space

end LinearProgram
