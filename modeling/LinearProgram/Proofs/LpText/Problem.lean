import LinearProgram.Proofs.LpText.Columns
import LinearProgram.Proofs.LpText.Rows

/-!
Problems by their LP text. What a model is flattened into can be read from its text, up to the
spelling of names: sense, objective, columns and rows. Main statement: problems with the same text
are the same.
-/

namespace LinearProgram

variable {κ : Type}

/-- What a model is flattened into. -/
structure Problem (κ : Type) where
  columns : List (Column κ)
  rows : List (Row κ)
  objective : FlatObjective κ

/-- A row by its name in LP text and its ends. -/
structure BoundedRow (κ : Type) where
  name : String
  entries : List (Nat × κ)
  lower : κ
  upper : κ

/-- The rows that stand in LP text for a row: none for a row without bounds and two for a row with
two of them. All numbers lie above `bottom` and below `top`. -/
def Row.bounded (bottom top : κ) (r : Row κ) : List (BoundedRow κ) :=
  match r.bounds with
  | .free => []
  | .between l u =>
    [⟨LpText.name r.name ++ ".lo", r.entries, l, top⟩,
      ⟨LpText.name r.name ++ ".hi", r.entries, bottom, u⟩]
  | b => [⟨LpText.name r.name, r.entries, b.lower bottom, b.upper top⟩]

namespace LpText

variable {names : List String} {columns columns' : List (Column κ)}

/-- Entries by the places of their names. -/
def unnamed (names : List String) (es : List (String × κ)) : List (Nat × κ) :=
  es.map fun (n, c) => (names.idxOf n, c)

theorem unnamed_named (hnodup : names.Nodup) {entries : List (Nat × κ)}
    (h : ∀ e ∈ entries, e.1 < names.length) :
    unnamed names (named names.toArray entries) = entries := by
  rw [unnamed, named, List.map_map]
  refine (List.map_congr_left fun e he => ?_).trans (List.map_id entries)
  have hplace : names.idxOf (names.toArray.getD e.1 "") = e.1 := by
    rw [Array.getD_eq_getD_getElem?, List.getElem?_toArray, List.getElem?_eq_getElem (h e he),
      Option.getD_some, hnodup.idxOf_getElem]
  exact Prod.ext hplace rfl

/-- The row that a line stands for. -/
def Line.bounded? (names : List String) (bottom top : κ) : Line κ → Option (BoundedRow κ)
  | .comment _ => none
  | .row name es relation v =>
    some ⟨name, unnamed names es, if relation = "<=" then bottom else v,
      if relation = ">=" then top else v⟩

theorem filterMap_rowLines (hnodup : names.Nodup) (bottom top : κ) {r : Row κ}
    (h : ∀ e ∈ r.entries, e.1 < names.length) :
    (rowLines names.toArray r).filterMap (Line.bounded? names bottom top)
      = r.bounded bottom top := by
  have hentries := unnamed_named hnodup h
  unfold rowLines Row.bounded
  cases r.bounds <;>
    simp [Line.bounded?, hentries, Interval.lower, Interval.upper, Interval.lower?, Interval.upper?]

theorem integerNames_cons (c : Column κ) (columns : List (Column κ)) :
    integerNames (c :: columns)
      = if c.integer then name c.name :: integerNames columns else integerNames columns := by
  unfold integerNames
  cases h : c.integer <;> simp [h]

theorem notMem_integerNames {n : String} (h : n ∉ columns.map fun c => name c.name) :
    n ∉ integerNames columns := fun hmem => h (List.map_subset _ (List.filter_subset_self _) hmem)

/-- Columns with names of their own are integer just if the section of integers names them. -/
theorem integer_eq_of_integerNames_eq {R : Column κ → Column κ → Prop}
    (h : List.Forall₂ R columns columns') (hname : ∀ c c', R c c' → name c.name = name c'.name)
    (hnodup : (columns.map fun c => name c.name).Nodup)
    (hnodup' : (columns'.map fun c => name c.name).Nodup)
    (hintegers : integerNames columns = integerNames columns') :
    List.Forall₂ (fun c c' => R c c' ∧ c.integer = c'.integer) columns columns' := by
  induction h with
  | nil => exact .nil
  | @cons c c' columns columns' hhead htail ih =>
      rw [List.map_cons, List.nodup_cons] at hnodup hnodup'
      have hn := notMem_integerNames hnodup.1
      have hn' := notMem_integerNames hnodup'.1
      rw [integerNames_cons, integerNames_cons, hname c c' hhead] at hintegers
      rw [hname c c' hhead] at hn
      cases hc : c.integer <;> cases hc' : c'.integer <;>
        simp only [hc, hc', if_true, Bool.false_eq_true, if_false] at hintegers
      · exact .cons ⟨hhead, hc.trans hc'.symm⟩ (ih hnodup.2 hnodup'.2 hintegers)
      · exact absurd (hintegers ▸ List.mem_cons_self) hn
      · exact absurd (hintegers ▸ List.mem_cons_self) hn'
      · exact .cons ⟨hhead, hc.trans hc'.symm⟩
          (ih hnodup.2 hnodup'.2 (List.cons.inj hintegers).2)

end LpText

variable [Scalar κ]

namespace Problem

variable {p p' : Problem κ} {bottom top : κ} {title title' : Option String}

def names (p : Problem κ) : List String := p.columns.map fun c => LpText.name c.name

omit [Scalar κ] in
theorem length_names (p : Problem κ) : p.names.length = p.columns.length := List.length_map _

def text (title : Option String) (p : Problem κ) : String :=
  LpText.render title p.columns p.rows p.objective

/-- All entries are in columns of the problem. -/
structure Within (p : Problem κ) : Prop where
  rows : ∀ r ∈ p.rows, ∀ e ∈ r.entries, e.1 < p.columns.length
  objective : ∀ e ∈ p.objective.entries, e.1 < p.columns.length

/-- Two problems with the same sense, objective, columns and rows, the names as LP text has them. -/
structure Same (bottom top : κ) (p p' : Problem κ) : Prop where
  sense : p.objective.sense = p'.objective.sense
  entries : p.objective.entries = p'.objective.entries
  constant : Scalar.Alike p.objective.constant p'.objective.constant
  columns : List.Forall₂ (fun c c' => LpText.SameBounds bottom top c c' ∧ c.integer = c'.integer)
    p.columns p'.columns
  rows : p.rows.flatMap (Row.bounded bottom top) = p'.rows.flatMap (Row.bounded bottom top)

omit [Scalar κ] in
theorem flatMap_bounded (h : p.Within) (hnodup : p.names.Nodup) (bottom top : κ) :
    (p.rows.flatMap (LpText.rowLines p.names.toArray)).filterMap
        (LpText.Line.bounded? p.names bottom top)
      = p.rows.flatMap (Row.bounded bottom top) := by
  rw [List.filterMap_flatMap]
  refine List.flatMap_congr fun r hr => ?_
  exact LpText.filterMap_rowLines hnodup bottom top (p.length_names ▸ h.rows r hr)

/-- Behind the first line the texts have the same pieces. -/
theorem pieces_eq_of_text_eq [Scalar.Legible κ] (htitle : '\n' ∉ (LpText.titleLine title).toList)
    (htitle' : '\n' ∉ (LpText.titleLine title').toList) (h : p.text title = p'.text title') :
    LpText.pieces p.columns p.rows p.objective
      = LpText.pieces p'.columns p'.rows p'.objective := by
  have hchars := congrArg String.toList h
  rw [text, text, LpText.toList_render, LpText.toList_render] at hchars
  exact LpText.eq_of_joined_eq (LpText.parted_pieces _ _ _) (LpText.parted_pieces _ _ _)
    (congrArg (List.cons '\n') (LpText.eq_of_line_append_eq htitle htitle' hchars))

theorem eq_of_sense_eq {s s' : Sense} (h : LpText.sense s = LpText.sense s') : s = s' := by
  cases s <;> cases s' <;> first | rfl | exact absurd h (by decide)

theorem same_of_pieces_eq [Scalar.Legible κ] (hbottom : Scalar.text bottom = "-inf") (top : κ)
    (hwithin : p.Within) (hwithin' : p'.Within) (hnodup : p.names.Nodup)
    (h : LpText.pieces p.columns p.rows p.objective
      = LpText.pieces p'.columns p'.rows p'.objective) : p.Same bottom top p' := by
  simp only [LpText.pieces, List.cons_append, List.append_assoc, List.nil_append] at h
  obtain ⟨hsense, hrest⟩ := List.cons.inj h
  obtain ⟨hentries, hconstant, hrest⟩ := LpText.objective_inj hrest
  have hlines (q : Problem κ) :
      ∀ l ∈ q.rows.flatMap (LpText.rowLines q.names.toArray), l.Sound := by
    simp only [List.forall_mem_flatMap]
    exact fun r _ => LpText.sound_rowLines r
  obtain ⟨hrows, hrest⟩ := LpText.lines_inj (hlines p) (hlines p') (List.cons.inj hrest).2
  obtain ⟨hcolumns, hrest⟩ := LpText.columns_inj hbottom top hrest
    (LpText.ends_generalSection p.columns) (LpText.ends_generalSection p'.columns)
  have hnames : p.names = p'.names := by
    rw [names, names, ← List.forall₂_eq_eq_eq, List.forall₂_map_left_iff,
      List.forall₂_map_right_iff]
    exact hcolumns.imp fun _ _ hc => hc.name
  have hnodup' : p'.names.Nodup := hnames ▸ hnodup
  have hintegers := LpText.generalSection_inj hrest
  refine ⟨eq_of_sense_eq (LpText.eq_of_first_eq hsense), ?_, hconstant,
    LpText.integer_eq_of_integerNames_eq hcolumns (fun _ _ hc => hc.name) hnodup hnodup' hintegers,
    ?_⟩
  · calc p.objective.entries
        = LpText.unnamed p.names (LpText.named p.names.toArray p.objective.entries) :=
          (LpText.unnamed_named hnodup (p.length_names ▸ hwithin.objective)).symm
      _ = LpText.unnamed p'.names (LpText.named p'.names.toArray p'.objective.entries) :=
          congr (congrArg LpText.unnamed hnames) hentries
      _ = p'.objective.entries :=
          LpText.unnamed_named hnodup' (p'.length_names ▸ hwithin'.objective)
  · calc p.rows.flatMap (Row.bounded bottom top)
        = (p.rows.flatMap (LpText.rowLines p.names.toArray)).filterMap
            (LpText.Line.bounded? p.names bottom top) :=
          (flatMap_bounded hwithin hnodup bottom top).symm
      _ = (p'.rows.flatMap (LpText.rowLines p'.names.toArray)).filterMap
            (LpText.Line.bounded? p'.names bottom top) := by
          rw [hrows, hnames]
      _ = p'.rows.flatMap (Row.bounded bottom top) :=
          flatMap_bounded hwithin' hnodup' bottom top

end Problem

end LinearProgram
