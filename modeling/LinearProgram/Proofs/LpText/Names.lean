import LinearProgram.Proofs.LpText.Writing

/-!
Which names LP text merges. LP text spells names with fewer characters than the names of columns are
made of, so two columns may share a name there. They do just when their own names differ in nothing
but characters that are spelled alike.
-/

namespace LinearProgram

namespace LpText

/-- Characters that a low line stands for. -/
def isForeign (c : Char) : Bool := !(isNameChar c || c = '[' || c = ']')

/-- Characters that are spelled alike: the two opening brackets, the two closing ones, and the low
line with all the characters that it stands for. -/
inductive AlikeChar : Char → Char → Prop
  | same (c : Char) : AlikeChar c c
  | opening {c d : Char} (hc : c = '[' ∨ c = '(') (hd : d = '[' ∨ d = '(') : AlikeChar c d
  | closing {c d : Char} (hc : c = ']' ∨ c = ')') (hd : d = ']' ∨ d = ')') : AlikeChar c d
  | low {c d : Char} (hc : c = '_' ∨ isForeign c) (hd : d = '_' ∨ isForeign d) : AlikeChar c d

/-- The characters of a name, behind a low line if there are none or if they start like a number. -/
def spelled (s : String) : List Char :=
  if startsLikeNumber s.toList then '_' :: s.toList else s.toList

/-- Names of one length with characters that are spelled alike in every place. -/
def Confusable (s t : String) : Prop := List.Forall₂ AlikeChar (spelled s) (spelled t)

/-- Characters no two of which are spelled alike. -/
def isPlainChar (c : Char) : Bool := !(isForeign c || c = '(' || c = ')')

/-- A name of such characters that does not start like a number. -/
structure Plain (s : String) : Prop where
  start : startsLikeNumber s.toList = false
  chars : ∀ c ∈ s.toList, isPlainChar c = true

instance (s : String) : Decidable (Plain s) :=
  have : Decidable (∀ c ∈ s.toList, isPlainChar c = true) := List.decidableBAll _ s.toList
  decidable_of_iff (startsLikeNumber s.toList = false ∧ ∀ c ∈ s.toList, isPlainChar c = true)
    ⟨fun h => ⟨h.1, h.2⟩, fun h => ⟨h.start, h.chars⟩⟩

variable {c d : Char} {s t : String}

/-! ### Characters that are spelled alike -/

theorem nameChar_eq_opening_iff : nameChar c = '(' ↔ c = '[' ∨ c = '(' := by
  have hname : isNameChar '(' = true := by decide
  unfold nameChar
  grind

theorem nameChar_eq_closing_iff : nameChar c = ')' ↔ c = ']' ∨ c = ')' := by
  have hname : isNameChar ')' = true := by decide
  unfold nameChar
  grind

theorem nameChar_eq_low_iff : nameChar c = '_' ↔ c = '_' ∨ isForeign c := by
  unfold nameChar isForeign
  grind

theorem nameChar_eq_self (hopening : nameChar c ≠ '(') (hclosing : nameChar c ≠ ')')
    (hlow : nameChar c ≠ '_') : nameChar c = c := by
  unfold nameChar at *
  grind

theorem nameChar_eq_iff : nameChar c = nameChar d ↔ AlikeChar c d := by
  constructor
  · intro h
    -- three characters stand for others too, every other one for itself alone
    by_cases hopening : nameChar c = '('
    · exact .opening (nameChar_eq_opening_iff.mp hopening)
        (nameChar_eq_opening_iff.mp (h.symm.trans hopening))
    by_cases hclosing : nameChar c = ')'
    · exact .closing (nameChar_eq_closing_iff.mp hclosing)
        (nameChar_eq_closing_iff.mp (h.symm.trans hclosing))
    by_cases hlow : nameChar c = '_'
    · exact .low (nameChar_eq_low_iff.mp hlow) (nameChar_eq_low_iff.mp (h.symm.trans hlow))
    have hself : nameChar c = c := nameChar_eq_self hopening hclosing hlow
    rw [h] at hopening hclosing hlow
    have hself' : nameChar d = d := nameChar_eq_self hopening hclosing hlow
    obtain rfl : c = d := hself.symm.trans (h.trans hself')
    exact .same c
  · intro h
    cases h with
    | same => rfl
    | opening hc hd => rw [nameChar_eq_opening_iff.mpr hc, nameChar_eq_opening_iff.mpr hd]
    | closing hc hd => rw [nameChar_eq_closing_iff.mpr hc, nameChar_eq_closing_iff.mpr hd]
    | low hc hd => rw [nameChar_eq_low_iff.mpr hc, nameChar_eq_low_iff.mpr hd]

/-! ### Names that are spelled alike -/

/-- A name starts like a number just when its spelling does. -/
theorem startsLikeNumber_map (cs : List Char) :
    startsLikeNumber (cs.map nameChar) = startsLikeNumber cs := by
  cases cs with
  | nil => rfl
  | cons c cs =>
      rw [List.map_cons, startsLikeNumber, startsLikeNumber, nameChar]
      split
      · rename_i hc
        rw [hc]
        rfl
      split
      · rename_i hc
        rw [hc]
        rfl
      split
      · rfl
      · rename_i hname
        have hdigit : c.isDigit = false := by
          apply Bool.eq_false_of_not_eq_true
          intro hdigit
          exact hname (by simp [isNameChar, Char.isAlphanum, hdigit])
        have hperiod : c ≠ '.' := by
          rintro rfl
          exact hname (by decide)
        simp [hdigit, hperiod]

theorem toList_name (s : String) : (name s).toList = (spelled s).map nameChar := by
  unfold name spelled
  dsimp only
  rw [String.toList_ofList, startsLikeNumber_map]
  split <;> rfl

theorem name_eq_iff : name s = name t ↔ Confusable s t := by
  have hchars : (fun c d => nameChar c = nameChar d) = AlikeChar := by
    funext c d
    exact propext nameChar_eq_iff
  rw [← String.toList_inj, toList_name, toList_name, ← List.forall₂_eq_eq_eq,
    List.forall₂_map_left_iff, List.forall₂_map_right_iff, hchars, Confusable]

instance : Decidable (Confusable s t) := decidable_of_iff _ name_eq_iff

theorem AlikeChar.eq_of_plain (h : AlikeChar c d) (hc : isPlainChar c = true)
    (hd : isPlainChar d = true) : c = d := by
  unfold isPlainChar at hc hd
  cases h with
  | same => rfl
  | opening hc' hd' => grind
  | closing hc' hd' => grind
  | low hc' hd' => grind

theorem eq_of_alike_of_plain {cs ds : List Char} (h : List.Forall₂ AlikeChar cs ds)
    (hcs : ∀ c ∈ cs, isPlainChar c = true) (hds : ∀ d ∈ ds, isPlainChar d = true) : cs = ds := by
  induction h with
  | nil => rfl
  | cons hhead _ ih =>
      rw [List.forall_mem_cons] at hcs hds
      rw [hhead.eq_of_plain hcs.1 hds.1, ih hcs.2 hds.2]

/-- Plain names are not taken for each other. -/
theorem Plain.eq_of_confusable (hs : Plain s) (ht : Plain t) (h : Confusable s t) : s = t := by
  rw [Confusable, spelled, spelled, hs.start, ht.start] at h
  exact String.toList_inj.mp (eq_of_alike_of_plain h hs.chars ht.chars)

end LpText

/-! ### Columns under one name -/

namespace Problem

variable {κ : Type} {p : Problem κ} {i j : Nat} {c c' : Column κ}

theorem getElem?_names (h : p.columns[i]? = some c) : p.names[i]? = some (LpText.name c.name) := by
  rw [names, List.getElem?_map, h, Option.map_some]

theorem getElem?_names_eq_iff (h : p.columns[i]? = some c) (h' : p.columns[j]? = some c') :
    p.names[i]? = p.names[j]? ↔ LpText.Confusable c.name c'.name := by
  rw [getElem?_names h, getElem?_names h', Option.some.injEq, LpText.name_eq_iff]

theorem nodup_names_iff :
    p.names.Nodup ↔ p.columns.Pairwise fun c c' => ¬LpText.Confusable c.name c'.name := by
  rw [names, List.Nodup, List.pairwise_map]
  exact List.Pairwise.iff fun {c c'} => not_congr LpText.name_eq_iff

theorem nodup_names_of_plain (hdistinct : (p.columns.map (·.name)).Nodup)
    (hplain : ∀ c ∈ p.columns, LpText.Plain c.name) : p.names.Nodup := by
  rw [nodup_names_iff]
  rw [List.Nodup, List.pairwise_map] at hdistinct
  refine hdistinct.imp_of_mem fun {c c'} hc hc' hne hconfusable => hne ?_
  exact (hplain c hc).eq_of_confusable (hplain c' hc') hconfusable

end Problem

namespace Session

variable {κ : Type} [Scalar κ] {s : Session κ} {k : Nat} {m : Model κ} {sink : Sink}
  {text : String}

theorem eq_columns_of_problem {p : Problem κ} {columns : List (Column κ)}
    (hp : s.problem k = .ok p) (h : s.columns k = .ok columns) : columns = p.columns :=
  Except.ok.inj (h.symm.trans (parts_of_problem hp).1)

/-- Where columns have names of their own and the model is written, two of them are written under
one name just when their names can be taken for each other. None are if all names are plain. -/
theorem names_of_written (hm : s.model k = .ok m)
    (hdistinct : ∀ columns, s.columns k = .ok columns → (columns.map (·.name)).Nodup)
    (hwrite : (s.write k sink).1 = .ok text) :
    ∃ p, s.problem k = .ok p ∧ p.text m.name = text
      ∧ (∀ (i j : Nat) (c c' : Column κ), i ≠ j → p.columns[i]? = some c → p.columns[j]? = some c' →
        c.name ≠ c'.name ∧ (p.names[i]? = p.names[j]? ↔ LpText.Confusable c.name c'.name))
      ∧ (p.names.Nodup ↔ p.columns.Pairwise fun c c' => ¬LpText.Confusable c.name c'.name)
      ∧ ((∀ c ∈ p.columns, LpText.Plain c.name) → p.names.Nodup) := by
  obtain ⟨p, hp, htext⟩ := problem_of_write hm hwrite
  have hnodup : (p.columns.map (·.name)).Nodup := hdistinct p.columns (parts_of_problem hp).1
  refine ⟨p, hp, htext, fun i j c c' hij hc hc' => ⟨fun heq => hij ?_, ?_⟩,
    Problem.nodup_names_iff, Problem.nodup_names_of_plain hnodup⟩
  · have hi : (p.columns.map (·.name))[i]? = some c.name := by
      rw [List.getElem?_map, hc, Option.map_some]
    have hj : (p.columns.map (·.name))[j]? = some c.name := by
      rw [List.getElem?_map, hc', Option.map_some, heq]
    exact (List.getElem?_inj (List.getElem?_eq_some_iff.mp hi).1 hnodup).mp (hi.trans hj.symm)
  · exact Problem.getElem?_names_eq_iff hc hc'

/-- Three columns, two of them with names that differ in a space. -/
def spacedModel : Model Float :=
  (Model.empty none).run
    [.declareFamily (some "a b") [] .free,
      .declareFamily (some "a_b") [] (.atLeast (.const 1)),
      .declareFamily (some "c") [] .free,
      .sealUp]

def spacedProblem : Problem Float :=
  ⟨[⟨"a b", .free, false⟩, ⟨"a_b", .atLeast 1, false⟩, ⟨"c", .free, false⟩], [],
    ⟨"obj", .minimize, [], 0⟩⟩

/-- Names of their own do not keep columns apart: the first two are written under one name. -/
theorem merged_of_spacedModel :
    let s := Session.mk [spacedModel] []
    spacedModel.isSealed = true ∧ s.columns 0 = .ok spacedProblem.columns
      ∧ (spacedProblem.columns.map (·.name)).Nodup
      ∧ (s.write 0 .unlimited).1 = .ok (spacedProblem.text none)
      ∧ spacedProblem.names = ["a_b", "a_b", "c"] :=
  ⟨rfl, rfl, by decide, rfl, by decide⟩

/-- A column for each of two labels. -/
def labelledModel : Model Float :=
  (Model.empty none).run
    [.addLabels ⟨"A", .labelled⟩ ["u", "v"],
      .declareFamily (some "x") [⟨"A", .labelled⟩] .free,
      .sealUp]

def labelledProblem : Problem Float :=
  ⟨[⟨"x[u]", .free, false⟩, ⟨"x[v]", .free, false⟩], [], ⟨"obj", .minimize, [], 0⟩⟩

theorem names_of_spacedModel :
    let s := Session.mk [spacedModel, labelledModel] []
    (s.write 0 .unlimited).1 = .ok (spacedProblem.text none)
      ∧ (spacedProblem.columns.map (·.name)).Nodup
      ∧ spacedProblem.names[0]? = spacedProblem.names[1]?
      ∧ spacedProblem.names[0]? ≠ spacedProblem.names[2]?
      ∧ (s.write 1 .unlimited).1 = .ok (labelledProblem.text none)
      ∧ (∀ c ∈ labelledProblem.columns, LpText.Plain c.name)
      ∧ labelledProblem.names.Nodup := by
  intro s
  have hspaced : s.problem 0 = .ok spacedProblem := rfl
  have hlabelled : s.problem 1 = .ok labelledProblem := rfl
  have hwrite : (s.write 0 .unlimited).1 = .ok (spacedProblem.text none) := rfl
  have hwrite' : (s.write 1 .unlimited).1 = .ok (labelledProblem.text none) := rfl
  have hnodup : (spacedProblem.columns.map (·.name)).Nodup := by decide
  have hnodup' : (labelledProblem.columns.map (·.name)).Nodup := by decide
  have hdistinct : ∀ columns, s.columns 0 = .ok columns → (columns.map (·.name)).Nodup :=
    fun columns h => eq_columns_of_problem hspaced h ▸ hnodup
  have hdistinct' : ∀ columns, s.columns 1 = .ok columns → (columns.map (·.name)).Nodup :=
    fun columns h => eq_columns_of_problem hlabelled h ▸ hnodup'
  obtain ⟨p, hp, -, hmerged, -⟩ := names_of_written rfl hdistinct hwrite
  obtain ⟨p', hp', -, -, -, hplain⟩ := names_of_written rfl hdistinct' hwrite'
  cases hspaced.symm.trans hp
  cases hlabelled.symm.trans hp'
  have hchars : ∀ c ∈ labelledProblem.columns, LpText.Plain c.name := by decide
  refine ⟨hwrite, hnodup, (hmerged 0 1 _ _ (by decide) rfl rfl).2.mpr (by decide), fun heq => ?_,
    hwrite', hchars, hplain hchars⟩
  exact absurd ((hmerged 0 2 _ _ (by decide) rfl rfl).2.mp heq) (by decide)

end Session

end LinearProgram
