import LinearProgram.Proofs.LpText.Pieces

/-!
The words of LP text. Names, numbers and keywords hold no separator, so the pieces of a problem's
text are the only ones that have this text.
-/

namespace LinearProgram

namespace LpText

open Piece

variable {κ : Type} {columns : List (Column κ)} {entries : List (Nat × κ)}

theorem isName_columnNames (columns : List (Column κ)) (j : Nat) :
    IsName ((columnNames columns).getD j "") := by
  rw [Array.getD_eq_getD_getElem?]
  cases h : (columnNames columns)[j]? with
  | none => exact List.forall_mem_nil _
  | some n =>
      obtain ⟨c, -, rfl⟩ := List.mem_map.mp (List.mem_toArray.mp (Array.mem_of_getElem? h))
      exact isName_name c.name

theorem isName_of_mem_named : ∀ e ∈ named (columnNames columns) entries, IsName e.1 := by
  simp only [named, List.forall_mem_map]
  exact fun e _ => isName_columnNames columns e.1

theorem isWord_name (s : String) : IsWord (name s) := (isName_name s).isWord

theorem parted_linePieces {ws : List String} (h : ∀ w ∈ ws, IsWord w) :
    ∀ p ∈ linePieces ws, p.Parted := by
  rw [linePieces, List.forall_mem_cons, List.forall_mem_map]
  exact ⟨parted_first (by decide), fun w hw => parted_next (h w hw)⟩

theorem parted_generalPieces {names : List String} (h : ∀ n ∈ names, IsWord n) :
    ∀ p ∈ generalPieces names, p.Parted := by
  induction names using general.induct with
  | case1 a b c d e f g i names ih =>
      have hsplit : ∀ n ∈ [a, b, c, d, e, f, g, i] ++ names, IsWord n := h
      rw [List.forall_mem_append] at hsplit
      rw [generalPieces, List.forall_mem_append]
      exact ⟨parted_linePieces hsplit.1, ih hsplit.2⟩
  | case2 => exact List.forall_mem_nil _
  | case3 names hmany hsome =>
      rw [generalPieces]
      · exact parted_linePieces h
      all_goals assumption

theorem parted_generalSection : ∀ p ∈ generalSectionPieces columns, p.Parted := by
  unfold generalSectionPieces
  split
  · exact List.forall_mem_nil _
  · refine List.forall_mem_cons.mpr ⟨parted_first (by decide), parted_generalPieces ?_⟩
    exact List.forall_mem_map.mpr fun c _ => isWord_name c.name

/-- What the lines of rows are made of. -/
def Line.Sound : Line κ → Prop
  | .comment name => IsName name
  | .row name entries relation _ =>
    IsName name ∧ (∀ e ∈ entries, IsName e.1) ∧ relation ∈ [">=", "<=", "="]

theorem sound_rowLines (r : Row κ) : ∀ l ∈ rowLines (columnNames columns) r, l.Sound := by
  have hname := isName_name r.name
  have hrow {n relation : String} (hn : IsName n) (hrelation : relation ∈ [">=", "<=", "="])
      (v : κ) : (Line.row n (named (columnNames columns) r.entries) relation v).Sound :=
    ⟨hn, isName_of_mem_named, hrelation⟩
  unfold rowLines
  cases r.bounds with
  | free => exact List.forall_mem_singleton.mpr hname
  | atLeast l => exact List.forall_mem_singleton.mpr (hrow hname (by decide) l)
  | atMost u => exact List.forall_mem_singleton.mpr (hrow hname (by decide) u)
  | fixed v => exact List.forall_mem_singleton.mpr (hrow hname (by decide) v)
  | between l u =>
      exact List.forall_mem_cons.mpr ⟨hrow (hname.append (by decide)) (by decide) l,
        List.forall_mem_singleton.mpr (hrow (hname.append (by decide)) (by decide) u)⟩

variable [Scalar κ] [Scalar.Legible κ]

theorem parted_text (v : κ) : (next (Scalar.text v)).Parted :=
  parted_next (Scalar.Legible.isWord v)

theorem isWord_signed {k : Nat} {v : κ} : ∀ w ∈ signed k v, IsWord w := by
  have htext := Scalar.Legible.isWord (κ := κ)
  have hplus : IsWord "+" := by decide
  have hminus : IsWord "-" := by decide
  unfold signed
  split <;> [skip; split] <;> simp [htext, hplus, hminus]

theorem parted_entries {k : Nat} {es : List (String × κ)} (h : ∀ e ∈ es, IsName e.1) :
    ∀ p ∈ entriesPieces k es, p.Parted := by
  induction es generalizing k with
  | nil => exact List.forall_mem_nil _
  | cons e es ih =>
      rw [List.forall_mem_cons] at h
      have hwords : ∀ w ∈ signed k e.2 ++ [e.1], IsWord w := by
        rw [List.forall_mem_append, List.forall_mem_singleton]
        exact ⟨isWord_signed, h.1.isWord⟩
      rw [entriesPieces, entryPieces, List.forall_mem_append, List.forall_mem_append,
        List.forall_mem_map]
      refine ⟨⟨fun w hw => parted_next (hwords w hw), ?_⟩, ih h.2⟩
      split
      · exact List.forall_mem_singleton.mpr (parted_first (by decide))
      · exact List.forall_mem_nil _

theorem parted_linear {es : List (String × κ)} (h : ∀ e ∈ es, IsName e.1) :
    ∀ p ∈ linearPieces es, p.Parted := by
  unfold linearPieces
  split
  · exact List.forall_mem_singleton.mpr (parted_next (by decide))
  · exact parted_entries h

theorem parted_objective (o : FlatObjective κ) :
    ∀ p ∈ objectivePieces (columnNames columns) o, p.Parted := by
  have hconstant : ∀ p ∈ constantPieces o, p.Parted := by
    unfold constantPieces
    split
    · have hsign : (next (if o.constant < 0 then "-" else "+")).Parted := by
        split <;> exact parted_next (by decide)
      simp [hsign, parted_text]
    · exact List.forall_mem_nil _
  simp only [objectivePieces, List.forall_mem_append, List.forall_mem_cons]
  exact ⟨⟨parted_first (by decide), parted_next (isWord_name o.name), parted_colon,
    parted_entries isName_of_mem_named⟩, hconstant⟩

theorem Line.Sound.parted {l : Line κ} (h : l.Sound) : ∀ p ∈ l.pieces, p.Parted := by
  cases l with
  | comment name =>
      simp only [Line.pieces, List.forall_mem_cons]
      exact ⟨parted_first (by decide), parted_next (by decide), parted_next (by decide),
        parted_next h.isWord, List.forall_mem_nil _⟩
  | row name entries relation v =>
      obtain ⟨hname, hentries, hrelation⟩ := h
      have hword : IsWord relation := by
        have hall : ∀ s ∈ [">=", "<=", "="], IsWord s := by decide
        exact hall relation hrelation
      simp only [Line.pieces, List.forall_mem_append, List.forall_mem_cons]
      exact ⟨⟨parted_first (by decide), parted_next hname.isWord, parted_colon,
        parted_linear hentries⟩, parted_next hword, parted_text v, List.forall_mem_nil _⟩

theorem isWord_boundsWords {n : String} (h : IsWord n) (b : Interval κ) :
    ∀ w ∈ boundsWords n b, IsWord w := by
  have htext := Scalar.Legible.isWord (κ := κ)
  have hkeywords : ∀ s ∈ ["free", ">=", "<=", "=", "-inf"], IsWord s := by decide
  simp only [List.forall_mem_cons] at hkeywords
  cases b <;> simp [boundsWords, h, htext, hkeywords]

theorem parted_pieces (columns : List (Column κ)) (rows : List (Row κ)) (o : FlatObjective κ) :
    ∀ p ∈ pieces columns rows o, p.Parted := by
  have hsense : IsWord (sense o.sense) := by cases o.sense <;> decide
  have hrows : ∀ p ∈ (rows.flatMap (rowLines (columnNames columns))).flatMap Line.pieces,
      p.Parted := by
    simp only [List.forall_mem_flatMap]
    exact fun r _ l hl => (sound_rowLines r l hl).parted
  have hbounds : ∀ p ∈ columnPieces columns, p.Parted := by
    simp only [columnPieces, List.forall_mem_flatMap]
    exact fun c _ => parted_linePieces (isWord_boundsWords (isWord_name c.name) c.bounds)
  simp only [pieces, List.forall_mem_append, List.forall_mem_cons]
  refine ⟨⟨⟨⟨⟨⟨parted_first hsense, parted_objective o⟩, ?_⟩, hrows⟩, ?_, hbounds⟩,
    parted_generalSection⟩, ?_⟩
  · exact ⟨parted_first (by decide), parted_next (by decide), List.forall_mem_nil _⟩
  · exact parted_first (by decide)
  · exact ⟨parted_first (by decide), parted_first (by decide), List.forall_mem_nil _⟩

end LpText

end LinearProgram
