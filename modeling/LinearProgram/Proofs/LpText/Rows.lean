import LinearProgram.Proofs.LpText.Entries

/-!
Rows, read from LP text. A line of the section of rows is a comment or has a name, entries, a
relation and a number, all of which can be read from its pieces.
-/

namespace LinearProgram

namespace LpText

open Piece Scalar.Legible

variable {κ : Type} [Scalar κ] [Scalar.Legible κ] {v v' : κ} {es es' : List (String × κ)}
  {r r' : List Piece}

def relations : List String := [">=", "<=", "="]

theorem IsName.notMem_relations {s : String} (h : IsName s) : s ∉ relations := by
  intro hmem
  have hall : ∀ s ∈ relations, ¬IsName s := by decide
  exact hall s hmem h

omit [Scalar.Legible κ] in
theorem stops_relation {relation : String} (h : relation ∈ relations) (v : κ) (r : List Piece) :
    Stops (next relation :: next (Scalar.text v) :: r) := by
  intro sign hsign t n rest heq
  have hrelation := eq_of_next_eq (List.cons.inj heq).1
  have hnone : ∀ sign ∈ ["+", "-"], sign ∉ relations := by decide
  exact hnone sign hsign (hrelation ▸ h)

theorem linear_inj {relation relation' : String} (hes : ∀ e ∈ es, IsName e.1)
    (hes' : ∀ e ∈ es', IsName e.1) (hrelation : relation ∈ relations)
    (hrelation' : relation' ∈ relations)
    (h : linearPieces es ++ next relation :: next (Scalar.text v) :: r
      = linearPieces es' ++ next relation' :: next (Scalar.text v') :: r') :
    es = es' ∧ relation = relation' ∧ v = v' ∧ r = r' := by
  suffices hsame : es = es' ∧ next relation :: next (Scalar.text v) :: r
      = next relation' :: next (Scalar.text v') :: r' by
    obtain ⟨hes, hrest⟩ := hsame
    obtain ⟨hrelation, hrest⟩ := List.cons.inj hrest
    obtain ⟨hv, hr⟩ := List.cons.inj hrest
    exact ⟨hes, eq_of_next_eq hrelation, text_inj (eq_of_next_eq hv), hr⟩
  -- an empty row has its relation where the others have a name
  have hempty {e : String × κ} {es : List (String × κ)} {relation : String} {t t' : List Piece}
      (he : IsName e.1) (hrelation : relation ∈ relations) :
      next "0" :: next relation :: t ≠ entriesPieces 0 (e :: es) ++ t' := by
    obtain ⟨rest, hrest⟩ := entriesPieces_zero_cons e es t'
    rw [hrest]
    intro heq
    have hname := eq_of_next_eq (List.cons.inj (List.cons.inj heq).2).1
    exact he.notMem_relations (hname ▸ hrelation)
  cases es with
  | nil =>
      cases es' with
      | nil => exact ⟨rfl, (List.cons.inj h).2⟩
      | cons e' es' => exact absurd h (hempty (hes' e' List.mem_cons_self) hrelation)
  | cons e es =>
      cases es' with
      | nil => exact absurd h.symm (hempty (hes e List.mem_cons_self) hrelation')
      | cons e' es' =>
          exact entries_cons_inj h (stops_relation hrelation v r) (stops_relation hrelation' v' r')

theorem line_inj {l l' : Line κ} (hl : l.Sound) (hl' : l'.Sound)
    (h : l.pieces ++ r = l'.pieces ++ r') : l = l' ∧ r = r' := by
  have hkind : first "\\" ≠ first "" := fun heq => absurd (eq_of_first_eq heq) (by decide)
  cases l with
  | comment n =>
      cases l' with
      | comment n' =>
          simp only [Line.pieces, List.cons_append, List.nil_append, List.cons.injEq, true_and] at h
          rw [eq_of_next_eq h.1]
          exact ⟨rfl, h.2⟩
      | row n' es' relation' v' => exact absurd (List.cons.inj h).1 hkind
  | row n es relation v =>
      cases l' with
      | comment n' => exact absurd (List.cons.inj h).1.symm hkind
      | row n' es' relation' v' =>
          simp only [Line.pieces, List.cons_append, List.append_assoc, List.nil_append,
            List.cons.injEq, true_and] at h
          obtain ⟨hes, hrelation, hv, hr⟩ := linear_inj hl.2.1 hl'.2.1 hl.2.2 hl'.2.2 h.2
          rw [eq_of_next_eq h.1, hes, hrelation, hv]
          exact ⟨rfl, hr⟩

omit [Scalar.Legible κ] in
theorem bounds_ne_line (l : Line κ) (t t' : List Piece) : first "Bounds" :: t ≠ l.pieces ++ t' := by
  intro h
  cases l with
  | comment n => exact absurd (eq_of_first_eq (List.cons.inj h).1) (by decide)
  | row n es relation v => exact absurd (eq_of_first_eq (List.cons.inj h).1) (by decide)

theorem lines_inj {ls ls' : List (Line κ)} (hls : ∀ l ∈ ls, l.Sound) (hls' : ∀ l ∈ ls', l.Sound)
    (h : ls.flatMap Line.pieces ++ first "Bounds" :: r
      = ls'.flatMap Line.pieces ++ first "Bounds" :: r') : ls = ls' ∧ r = r' := by
  induction ls generalizing ls' with
  | nil =>
      cases ls' with
      | nil => exact ⟨rfl, (List.cons.inj h).2⟩
      | cons l' ls' =>
          rw [List.flatMap_cons, List.append_assoc] at h
          exact absurd h (bounds_ne_line l' _ _)
  | cons l ls ih =>
      cases ls' with
      | nil =>
          rw [List.flatMap_cons, List.append_assoc] at h
          exact absurd h.symm (bounds_ne_line l _ _)
      | cons l' ls' =>
          rw [List.forall_mem_cons] at hls hls'
          rw [List.flatMap_cons, List.flatMap_cons, List.append_assoc, List.append_assoc] at h
          obtain ⟨hl, hrest⟩ := line_inj hls.1 hls'.1 h
          obtain ⟨hls, hr⟩ := ih hls.2 hls'.2 hrest
          rw [hl, hls]
          exact ⟨rfl, hr⟩

end LpText

end LinearProgram
