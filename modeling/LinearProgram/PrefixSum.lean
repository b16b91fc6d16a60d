/-!
Running totals: each element is replaced by the total of the list up to it. The totals of sizes are
where consecutive blocks of these sizes end, and a number is looked up among them to find its block.
-/

namespace LinearProgram

/-- The totals of `x :: xs` given the total `acc` of what precedes. -/
def runningFrom {α : Type} {m : Type → Type} [Monad m] (add : α → α → m α) (acc : α) :
    List α → m (List α)
  | [] => pure []
  | x :: xs => do
    let acc ← add x acc
    return acc :: (← runningFrom add acc xs)

def runningTotals {α : Type} {m : Type → Type} [Monad m] (add : α → α → m α) :
    List α → m (List α)
  | [] => pure []
  | x :: xs => return x :: (← runningFrom add x xs)

/-- The place of the first block that does not end at or before `j`. -/
def blockAt (ends : List Nat) (j : Nat) : Nat := (ends.takeWhile (· ≤ j)).length

variable {ends : List Nat} {i j : Nat}

theorem blockAt_eq_findIdx (ends : List Nat) (j : Nat) :
    blockAt ends j = ends.findIdx (fun e => !decide (e ≤ j)) := by
  rw [blockAt, List.takeWhile_eq_take_findIdx_not, List.length_take]
  exact Nat.min_eq_left List.findIdx_le_length

theorem blockAt_eq (hi : i < ends.length) (hbefore : ∀ k (hk : k < i), ends[k] ≤ j)
    (hat : j < ends[i]) : blockAt ends j = i := by
  rw [blockAt_eq_findIdx, List.findIdx_eq hi]
  exact ⟨by simpa using hat, fun k hk => by simpa using hbefore k hk⟩

theorem blockAt_of_le (h : ∀ e ∈ ends, e ≤ j) : blockAt ends j = ends.length := by
  rw [blockAt_eq_findIdx]
  exact List.findIdx_eq_length_of_false (by simpa using h)

end LinearProgram
