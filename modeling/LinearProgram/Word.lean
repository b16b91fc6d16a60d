import LinearProgram.Fault

/-!
Machine words. Offsets and columns are unsigned and range values signed, both of 64 bits;
arithmetic that leaves the word traps.
-/

namespace LinearProgram

namespace Word

/-- Two to the 64th. -/
def limit : Nat := 0x1_0000_0000_0000_0000

def add (a b : Nat) : Outcome Nat :=
  if a + b < limit then .ok (a + b) else .trap .addOverflow

def mul (a b : Nat) : Outcome Nat :=
  if a * b < limit then .ok (a * b) else .trap .mulOverflow

/-- The signed number with the same bits. -/
def toSigned (n : Nat) : Int := if 2 * n < limit then n else (n : Int) - limit

theorem add_eq_ok_iff {a b c : Nat} : add a b = .ok c ↔ a + b < limit ∧ a + b = c :=
  Outcome.check_eq_ok_iff

theorem mul_eq_ok_iff {a b c : Nat} : mul a b = .ok c ↔ a * b < limit ∧ a * b = c :=
  Outcome.check_eq_ok_iff

theorem toSigned_of_lt {n : Nat} (h : 2 * n < limit) : toSigned n = n := if_pos h

end Word

namespace Signed

/-- Within two to the 63rd of zero, that number itself excluded. -/
def fits (v : Int) : Bool := -Word.limit ≤ 2 * v ∧ 2 * v < Word.limit

def add (a b : Int) : Outcome Int :=
  if fits (a + b) then .ok (a + b) else .trap .addOverflow

def sub (a b : Int) : Outcome Int :=
  if fits (a - b) then .ok (a - b) else .trap .subOverflow

theorem fits_iff {v : Int} : fits v = true ↔ -Word.limit ≤ 2 * v ∧ 2 * v < Word.limit := by
  simp [fits]

theorem add_eq_ok_iff {a b c : Int} : add a b = .ok c ↔ fits (a + b) = true ∧ a + b = c :=
  Outcome.check_eq_ok_iff

theorem sub_eq_ok_iff {a b c : Int} : sub a b = .ok c ↔ fits (a - b) = true ∧ a - b = c :=
  Outcome.check_eq_ok_iff

theorem sub_add_left {v : Int} (h : fits v = true) (a : Int) : sub (a + v) a = .ok v := by
  have hback : a + v - a = v := by omega
  rw [sub_eq_ok_iff, hback]
  exact ⟨h, rfl⟩

end Signed

end LinearProgram
