import LinearProgram.Proofs.Parameter
import LinearProgram.Scalar.Double

/-!
Stores that fail. Whatever is looked at before the table is allocated leaves the parameter as it
was; coordinates are looked at afterwards. A parameter without data that is refused coordinates
outside its space is therefore left with a table of defaults. Main statement: a failed store does
nothing else, and the table goes unnoticed as long as the space keeps its size, reads stay within it
and the default is not replaced.
-/

namespace LinearProgram.Parameter

variable {κ : Type} {c : Catalog} {p p' : Parameter κ} {coords : List Nat} {sizes : Shape} {n : Nat}
  {v : κ} {e : Failure}

/-! ### What a failed store leaves behind -/

/-- A parameter without data, whose space has elements, is to store beside them. -/
structure Strays (c : Catalog) (coords : List Nat) (n : Nat) (p : Parameter κ) : Prop where
  unpopulated : p.populated = false
  frozen : c.frozen = false
  size : p.space.size c = .ok n
  pos : 0 < n
  outside : ¬p.space.InRange c coords

theorem populated_filled (hn : 0 < n) (p : Parameter κ) : (p.filled n).populated = true := by
  cases n with
  | zero => omega
  | succ n => rfl

theorem storable_of_fits (hfrozen : c.frozen = false) (hsizes : p.space.sizes c = .ok sizes)
    (hcount : sizes.count = .ok n) (hfits : p.populated = true → p.values.length = n) :
    p.storable c = .ok (sizes, n) := by
  have hresized : ¬(p.populated = true ∧ p.values.length ≠ n) := fun ⟨hpopulated, hlength⟩ =>
    hlength (hfits hpopulated)
  unfold storable
  rw [if_neg (by simp [hfrozen]), hsizes, Outcome.ok_bind, hcount, Outcome.ok_bind,
    if_neg hresized]
  rfl

theorem write_of_outside (h : ¬sizes.Contains coords) (v : κ) (p : Parameter κ) :
    p.write sizes coords v = .refuse (.outsideParameter coords p.name) := by
  rw [write, Shape.offset?, if_neg h]
  rfl

theorem outside_of_write (hcount : sizes.count = .ok n) (h : p.write sizes coords v = .error e) :
    ¬sizes.Contains coords := by
  intro hcontains
  obtain ⟨hprod, hfit⟩ := Shape.count_eq_ok hcount
  have hlt := Shape.linear_lt_prod hcontains
  rw [write, Shape.offset?, if_pos hcontains,
    Shape.offset_eq_linear hcontains (by omega)] at h
  cases h

theorem allocate_zero (p : Parameter κ) : p.allocate 0 = p := by
  cases hpopulated : p.populated with
  | true => exact allocate_of_populated hpopulated 0
  | false =>
      rw [allocate_of_unpopulated hpopulated, filled, List.replicate_zero,
        ← values_of_unpopulated hpopulated]

/-- A store that fails has left the parameter as it was, or the parameter strays. -/
theorem store_eq_error (h : (p.store c coords v).1 = .error e) :
    (p.store c coords v).2 = p ∨ ∃ n, p.Strays c coords n := by
  unfold store at h ⊢
  split at h
  · exact .inl rfl
  rename_i sizes n hstorable
  obtain ⟨hn, hsizes⟩ := storable_eq_ok hstorable
  dsimp only at h ⊢
  split at h
  · rename_i hwrite
    cases hpopulated : p.populated with
    | true => exact .inl (allocate_of_populated hpopulated n)
    | false =>
        rcases Nat.eq_zero_or_pos n with rfl | hpos
        · exact .inl (allocate_zero p)
        · obtain ⟨sizes', hsizes', hcount, -, -⟩ := Space.size_eq_ok hn.size
          cases hsizes.symm.trans hsizes'
          refine .inr ⟨n, hpopulated, hn.frozen, hn.size, hpos, ?_⟩
          rw [Space.inRange_iff hsizes]
          exact outside_of_write hcount hwrite
  · cases h

theorem Strays.store (h : p.Strays c coords n) (v : κ) :
    p.store c coords v = (.refuse (.outsideParameter coords p.name), p.filled n) := by
  obtain ⟨sizes, hsizes, hcount, -, -⟩ := Space.size_eq_ok h.size
  have hstorable := storable_of_fits h.frozen hsizes hcount fun hpopulated => by
    rw [h.unpopulated] at hpopulated
    cases hpopulated
  have houtside := h.outside
  rw [Space.inRange_iff hsizes] at houtside
  unfold Parameter.store
  rw [hstorable]
  dsimp only
  rw [allocate_of_unpopulated h.unpopulated, write_of_outside houtside]
  rfl

/-- Labels are looked up before anything else, and coordinates that they resolve to do not stray. -/
theorem storeLabelled_eq_error {labels : List String} (hlength : labels.length = p.space.length)
    (h : (p.storeLabelled c labels v).1 = .error e) : (p.storeLabelled c labels v).2 = p := by
  unfold storeLabelled at h ⊢
  split at h
  · rfl
  rename_i coords hresolve
  rcases store_eq_error h with hsame | ⟨n, hstrays⟩
  · exact hsame
  · obtain ⟨sizes, hsizes, -, -, -⟩ := Space.size_eq_ok hstrays.size
    exact absurd (Space.inRange_of_resolve hsizes hlength hresolve) hstrays.outside

/-! ### What is noticed of it -/

/-- What is done with a parameter. -/
inductive Access (κ : Type)
  | setDefault (v : κ)
  | read (coords : List Nat)
  | store (coords : List Nat) (v : κ)
  | storeLabelled (labels : List String) (v : κ)

/-- The answer to an access, a number if it is a read, and the parameter after it. -/
def perform (c : Catalog) (p : Parameter κ) : Access κ → Outcome (Option κ) × Parameter κ
  | .setDefault v => (.ok none, p.setDefault v)
  | .read coords => ((p.read c coords).map some, p)
  | .store coords v => (p.store c coords v).map (·.map fun _ => none) id
  | .storeLabelled labels v => (p.storeLabelled c labels v).map (·.map fun _ => none) id

/-- The answers to accesses one after another, each with the index data of its moment. -/
def answers (p : Parameter κ) : List (Catalog × Access κ) → List (Outcome (Option κ))
  | [] => []
  | (c, a) :: rest => (p.perform c a).1 :: answers (p.perform c a).2 rest

/-- The space has its size, reads stay within it, and the default is kept. -/
def Access.Steady (n : Nat) (s : Space) (c : Catalog) (a : Access κ) : Prop :=
  s.size c = .ok n ∧
    match a with
    | .setDefault _ => False
    | .read coords => s.InRange c coords
    | .store .. | .storeLabelled .. => True

theorem filled_store (hpopulated : p.populated = false) (hn : 0 < n)
    (hsize : p.space.size c = .ok n) (coords : List Nat) (v : κ) :
    (p.filled n).store c coords v = p.store c coords v
      ∨ ∃ e, p.store c coords v = (.error e, p)
        ∧ (p.filled n).store c coords v = (.error e, p.filled n) := by
  cases hfrozen : c.frozen with
  | true => exact .inr ⟨_, store_of_frozen hfrozen coords v p, store_of_frozen hfrozen coords v _⟩
  | false =>
      left
      obtain ⟨sizes, hsizes, hcount, -, -⟩ := Space.size_eq_ok hsize
      have hstorable := storable_of_fits hfrozen hsizes hcount fun h => by
        rw [hpopulated] at h
        cases h
      have hstorable' := storable_of_fits (p := p.filled n) hfrozen hsizes hcount fun _ =>
        List.length_replicate
      unfold Parameter.store
      rw [hstorable, hstorable']
      dsimp only
      rw [allocate_of_unpopulated hpopulated, allocate_of_populated (populated_filled hn p)]

theorem filled_storeLabelled (hpopulated : p.populated = false) (hn : 0 < n)
    (hsize : p.space.size c = .ok n) (labels : List String) (v : κ) :
    (p.filled n).storeLabelled c labels v = p.storeLabelled c labels v
      ∨ ∃ e, p.storeLabelled c labels v = (.error e, p)
        ∧ (p.filled n).storeLabelled c labels v = (.error e, p.filled n) := by
  have hspace : (p.filled n).space = p.space := rfl
  unfold Parameter.storeLabelled
  rw [hspace]
  cases p.space.resolve c labels with
  | error e => exact .inr ⟨e, rfl, rfl⟩
  | ok coords => exact filled_store hpopulated hn hsize coords v

theorem filled_read (hpopulated : p.populated = false) (hn : 0 < n)
    (hsize : p.space.size c = .ok n) (hrange : p.space.InRange c coords) :
    (p.filled n).read c coords = p.read c coords := by
  obtain ⟨k, hk, hoffset, -⟩ := Space.exists_offset hsize hrange
  rw [read_of_unpopulated hpopulated, read_eq_ok_iff (populated_filled hn p)]
  have hlength : (p.filled n).values.length = n := List.length_replicate
  refine ⟨by rw [hlength]; exact hsize, k, hoffset, ?_⟩
  simp [filled, List.getD_eq_getElem?_getD, hk]

/-- An access that is answered in the same way either makes the difference go away or leaves both
parameters as they are. -/
theorem filled_perform (hpopulated : p.populated = false) (hn : 0 < n) {a : Access κ}
    (ha : a.Steady n p.space c) :
    (p.filled n).perform c a = p.perform c a
      ∨ ∃ o, p.perform c a = (o, p) ∧ (p.filled n).perform c a = (o, p.filled n) := by
  obtain ⟨hsize, ha⟩ := ha
  cases a with
  | setDefault v => exact ha.elim
  | read coords =>
      right
      exact ⟨_, rfl, by rw [perform, filled_read hpopulated hn hsize ha]⟩
  | store coords v =>
      rcases filled_store hpopulated hn hsize coords v with hsame | ⟨e, he, he'⟩
      · exact .inl (by rw [perform, perform, hsame])
      · exact .inr ⟨.error e, by rw [perform, he]; rfl, by rw [perform, he']; rfl⟩
  | storeLabelled labels v =>
      rcases filled_storeLabelled hpopulated hn hsize labels v with hsame | ⟨e, he, he'⟩
      · exact .inl (by rw [perform, perform, hsame])
      · exact .inr ⟨.error e, by rw [perform, he]; rfl, by rw [perform, he']; rfl⟩

theorem filled_answers (hpopulated : p.populated = false) (hn : 0 < n)
    {later : List (Catalog × Access κ)} (h : ∀ x ∈ later, x.2.Steady n p.space x.1) :
    (p.filled n).answers later = p.answers later := by
  induction later with
  | nil => rfl
  | cons x later ih =>
      obtain ⟨hx, hrest⟩ := List.forall_mem_cons.mp h
      rcases filled_perform hpopulated hn hx with hsame | ⟨o, ho, ho'⟩
      · rw [answers, answers, hsame]
      · rw [answers, answers, ho, ho', ih hrest]

/-- A store by labels that fails leaves the parameter as it was, and so does a store by coordinates,
unless index data are open, the parameter is without data, its space has elements and the
coordinates are not among them. In that case, and in no other, the parameter gets a table that holds
its default at that moment for every element. It then counts as populated, but all later accesses
are answered as if the store had not been tried, as long as the space keeps its size, reads stay
within it, and the default is not replaced. -/
theorem failed_store (p : Parameter κ) (c : Catalog) (v : κ) :
    (∀ (labels : List String) (e : Failure), labels.length = p.space.length →
      (p.storeLabelled c labels v).1 = .error e → (p.storeLabelled c labels v).2 = p)
    ∧ (∀ (coords : List Nat) (e : Failure), (p.store c coords v).1 = .error e →
      ((p.store c coords v).2 = p ↔ ∀ n, ¬p.Strays c coords n))
    ∧ ∀ (coords : List Nat) (n : Nat), p.Strays c coords n →
      p.store c coords v
        = (.refuse (.outsideParameter coords p.name),
          { p with values := List.replicate n p.fallback })
      ∧ (p.store c coords v).2.populated = true
      ∧ ∀ later : List (Catalog × Access κ), (∀ x ∈ later, x.2.Steady n p.space x.1) →
        (p.store c coords v).2.answers later = p.answers later := by
  refine ⟨fun labels e => storeLabelled_eq_error, fun coords e he => ?_, fun coords n h => ?_⟩
  · constructor
    · intro hsame n hstrays
      have hfilled := populated_filled hstrays.pos p
      rw [hstrays.store v] at hsame
      rw [show p.filled n = p from hsame, hstrays.unpopulated] at hfilled
      cases hfilled
    · intro hnone
      rcases store_eq_error he with hsame | ⟨n, hstrays⟩
      · exact hsame
      · exact absurd hstrays (hnone n)
  · rw [h.store v]
    exact ⟨rfl, populated_filled h.pos p, fun later => filled_answers h.unpopulated h.pos⟩

/-- Index data with two labels, and with a third. -/
def twoLabels : Catalog := ⟨[(⟨"A", .labelled⟩, ["a", "b"])], [], false⟩

def threeLabels : Catalog := ⟨[(⟨"A", .labelled⟩, ["a", "b", "c"])], [], false⟩

/-- A parameter without data over the labels. -/
def fives : Parameter Float := ⟨"p", [⟨"A", .labelled⟩], .free, 5, []⟩

theorem failed_store_of_fives :
    fives.Strays twoLabels [2] 2
      ∧ (fives.storeLabelled twoLabels ["z"] 1).2 = fives
      ∧ (fives.store twoLabels [2] 1).1 = .refuse (.outsideParameter [2] "p")
      ∧ (fives.store twoLabels [2] 1).2.values = [5, 5]
      ∧ ∀ v, (fives.store twoLabels [2] 1).2.answers [(twoLabels, .read [1]),
          (twoLabels, .storeLabelled ["b"] v), (twoLabels, .read [1])]
        = fives.answers [(twoLabels, .read [1]),
          (twoLabels, .storeLabelled ["b"] v), (twoLabels, .read [1])] := by
  have hone : fives.space.InRange twoLabels [1] := .cons ⟨2, rfl, by decide⟩ .nil
  have hstrays : fives.Strays twoLabels [2] 2 := by
    refine ⟨rfl, rfl, rfl, by decide, fun hrange => ?_⟩
    rcases hrange with _ | ⟨⟨n, hn, hlt⟩, -⟩
    cases hn
    exact absurd hlt (by decide)
  obtain ⟨hlabelled, -, hstray⟩ := failed_store fives twoLabels 1
  obtain ⟨hstore, -, hanswers⟩ := hstray [2] 2 hstrays
  refine ⟨hstrays, hlabelled ["z"] _ rfl rfl, by rw [hstore]; rfl, by rw [hstore]; rfl,
    fun v => hanswers _ ?_⟩
  exact List.forall_mem_cons.mpr ⟨⟨rfl, hone⟩, List.forall_mem_cons.mpr ⟨⟨rfl, trivial⟩,
    List.forall_mem_singleton.mpr ⟨rfl, hone⟩⟩⟩

/-- With a table in place, a new default is not read and a new label does not fit. -/
theorem answers_of_strayStore :
    let after := (fives.store twoLabels [2] 1).2
    (fives.store twoLabels [2] 1).1 = .refuse (.outsideParameter [2] "p")
      ∧ fives.populated = false ∧ after.populated = true
      ∧ fives.answers [(twoLabels, .setDefault 7), (twoLabels, .read [0])]
        = [.ok none, .ok (some 7)]
      ∧ after.answers [(twoLabels, .setDefault 7), (twoLabels, .read [0])]
        = [.ok none, .ok (some 5)]
      ∧ fives.answers [(threeLabels, .storeLabelled ["c"] 2)] = [.ok none]
      ∧ after.answers [(threeLabels, .storeLabelled ["c"] 2)] = [.refuse (.resized "p" 2 3)] :=
  ⟨rfl, rfl, rfl, rfl, rfl, rfl, rfl⟩

end LinearProgram.Parameter
