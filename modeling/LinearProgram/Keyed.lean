/-!
Finite maps as lists of pairs. A key counts at its first place.
-/

namespace LinearProgram.Keyed

variable {α β : Type} [DecidableEq α]

def find? (k : α) : List (α × β) → Option β
  | [] => none
  | (a, b) :: rest => if a = k then some b else find? k rest

/-- Puts `v` in the place of `k`, or at the end if `k` is new. -/
def put (k : α) (v : β) : List (α × β) → List (α × β)
  | [] => [(k, v)]
  | (a, b) :: rest => if a = k then (k, v) :: rest else (a, b) :: put k v rest

theorem find?_put_self (k : α) (v : β) (m : List (α × β)) : find? k (put k v m) = some v := by
  fun_induction put k v m <;> simp_all [find?]

theorem find?_put_of_ne {k a : α} (v : β) (m : List (α × β)) (h : a ≠ k) :
    find? a (put k v m) = find? a m := by
  fun_induction put k v m <;> simp_all [find?, Ne.symm]

theorem put_of_find? {k : α} {v : β} {m : List (α × β)} (h : find? k m = some v) :
    put k v m = m := by
  fun_induction find? k m <;> simp_all [put]

theorem find?_map {γ : Type} (f : β → γ) (k : α) (m : List (α × β)) :
    find? k (m.map fun p => (p.1, f p.2)) = (find? k m).map f := by
  fun_induction find? k m <;> simp_all [find?]

theorem put_map {γ : Type} (f : β → γ) (k : α) (v : β) (m : List (α × β)) :
    put k (f v) (m.map fun p => (p.1, f p.2)) = (put k v m).map fun p => (p.1, f p.2) := by
  fun_induction put k v m <;> simp_all [put]

theorem mem_put {k : α} {v : β} {m : List (α × β)} {p : α × β} (h : p ∈ put k v m) :
    p = (k, v) ∨ p ∈ m := by
  fun_induction put k v m <;> grind

theorem mem_of_find? {k : α} {v : β} {m : List (α × β)} (h : find? k m = some v) : (k, v) ∈ m := by
  fun_induction find? k m <;> simp_all

end LinearProgram.Keyed
