import Mathlib.Data.Nat.Find

namespace PartitionPoint

variable {ε : Type}

def loop (probe : Nat → Except ε Bool) : Nat → Nat → Nat → Except ε Nat
  | 0, low, _ => .ok low
  | fuel + 1, low, high =>
    if low < high then do
      if ← probe (low + (high - low) / 2) then loop probe fuel (low + (high - low) / 2 + 1) high
      else loop probe fuel low (low + (high - low) / 2)
    else .ok low

def search (probe : Nat → Except ε Bool) (count : Nat) : Except ε Nat := loop probe count 0 count

variable {probe : Nat → Except ε Bool}

theorem loop_eq_ok {point : Nat} (fuel low high : Nat) (enough : high - low ≤ fuel) (lower : low ≤ point)
    (upper : point ≤ high) (before : ∀ i, low ≤ i → i < point → probe i = .ok true)
    (after : ∀ i, point ≤ i → i < high → probe i = .ok false) : loop probe fuel low high = .ok point := by
  induction fuel generalizing low high with
  | zero =>
    rw [loop]
    congr
    omega
  | succ fuel ih =>
    rw [loop]
    split
    · rename_i less
      by_cases left : low + (high - low) / 2 < point
      · rw [before _ (by omega) left]
        exact ih _ _ (by omega) (by omega) upper (fun i low => before i (by omega)) after
      · rw [after _ (by omega) (by omega)]
        exact ih _ _ (by omega) lower (by omega) before (fun i low high => after i low (by omega))
    · congr
      omega

theorem search_spec (probe : Nat → Except ε Bool) (p : Nat → Bool) (count : Nat)
    (probes : ∀ i < count, probe i = .ok (p i)) (downward : ∀ i j, i ≤ j → j < count → p j → p i) :
    ∃ point ≤ count, search probe count = .ok point ∧ (∀ i < point, p i = true) ∧
      ∀ i, point ≤ i → i < count → p i = false := by
  by_cases fails : ∃ i, i < count ∧ p i = false
  · have least := Nat.find_spec fails
    have before : ∀ i < Nat.find fails, p i = true := by
      intro i small
      have := Nat.find_min fails small
      simp only [not_and, Bool.not_eq_false] at this
      exact this (by omega)
    have after : ∀ i, Nat.find fails ≤ i → i < count → p i = false := by
      intro i large small
      by_contra holds
      have := downward _ i large small (by simpa using holds)
      rw [least.2] at this
      cases this
    refine ⟨Nat.find fails, by omega, ?_, before, after⟩
    apply loop_eq_ok _ _ _ (by omega) (Nat.zero_le _) (by omega)
    · intro i _ small
      rw [probes i (by omega), before i small]
    · intro i large small
      rw [probes i small, after i large small]
  · have always : ∀ i < count, p i = true := by
      intro i small
      by_contra holds
      exact fails ⟨i, small, by simpa using holds⟩
    refine ⟨count, Nat.le_refl _, ?_, always, by omega⟩
    apply loop_eq_ok _ _ _ (by omega) (Nat.zero_le _) (Nat.le_refl _)
    · intro i _ small
      rw [probes i small, always i small]
    · omega

end PartitionPoint
