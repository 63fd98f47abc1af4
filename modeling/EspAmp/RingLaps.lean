import Mathlib.Data.List.Intervals
import Mathlib.Tactic.Ring

/-!
# Laps of a counter around a ring

A ring of `n` slots is visited by an unbounded counter: position `j` falls on
slot `j % n` in lap `j / n`. The visits that a slot has already had when the
counter stands at `m` are counted by `laps n m`. Inside the window of the next
`n` positions this count is the lap number of the position itself, so a single
parity bit per slot tells a reader whether the slot has been visited in the
current lap. Nothing here knows what the slots hold.
-/
namespace EspAmp.RingLaps

/-- Number of positions below `m` that fall on slot `s`. -/
def laps (n m s : ℕ) : ℕ := (m + (n - 1 - s)) / n

/-- One bit of the lap count, as a slot remembers it. -/
def lapBit (n m s : ℕ) : Bool := laps n m s % 2 == 1

theorem laps_of_window {n m j : ℕ} (hm : m ≤ j) (hj : j < m + n) :
    laps n m (j % n) = j / n := by
  have hn : 0 < n := by omega
  have hlt := Nat.mod_lt j hn
  have hdiv := Nat.div_add_mod j n
  unfold laps
  apply Nat.div_eq_of_lt_le
  · rw [mul_comm]; omega
  · rw [Nat.succ_mul, mul_comm]; omega

/-- A position in the last `n` ones has been visited exactly once more. -/
theorem laps_of_behind {n m j : ℕ} (hj : j < m) (hm : m ≤ j + n) (hn : 0 < n) :
    laps n m (j % n) = j / n + 1 := by
  have h := laps_of_window (n := n) (m := m) (j := j + n) hm (by omega)
  rwa [Nat.add_mod_right, Nat.add_div_right _ hn] at h

theorem exists_window {n s : ℕ} (m : ℕ) (hs : s < n) :
    ∃ j, m ≤ j ∧ j < m + n ∧ j % n = s := by
  have hn : 0 < n := by omega
  have hlt := Nat.mod_lt m hn
  have hdiv := Nat.div_add_mod m n
  by_cases h : m % n ≤ s
  · refine ⟨n * (m / n) + s, by omega, by omega, ?_⟩
    rw [Nat.mul_add_mod, Nat.mod_eq_of_lt hs]
  · refine ⟨n * (m / n + 1) + s, ?_, ?_, ?_⟩
    · rw [Nat.mul_add]; omega
    · rw [Nat.mul_add]; omega
    · rw [Nat.mul_add_mod, Nat.mod_eq_of_lt hs]

theorem laps_succ_same {n m : ℕ} (hn : 0 < n) :
    laps n (m + 1) (m % n) = laps n m (m % n) + 1 := by
  rw [laps_of_behind (by omega) (by omega) hn, laps_of_window le_rfl (by omega)]

theorem laps_succ_ne {n m s : ℕ} (hs : s < n) (hne : s ≠ m % n) :
    laps n (m + 1) s = laps n m s := by
  obtain ⟨j, hm, hj, rfl⟩ := exists_window m hs
  have hjm : j ≠ m := fun h => hne (by rw [h])
  rw [laps_of_window (by omega) (by omega), laps_of_window hm hj]

theorem lapBit_succ_same {n m : ℕ} (hn : 0 < n) :
    lapBit n (m + 1) (m % n) = !lapBit n m (m % n) := by
  unfold lapBit
  rw [laps_succ_same hn]
  rcases Nat.mod_two_eq_zero_or_one (laps n m (m % n)) with h | h
  · simp [Nat.add_mod, h]
  · simp [Nat.add_mod, h]

theorem lapBit_succ_ne {n m s : ℕ} (hs : s < n) (hne : s ≠ m % n) :
    lapBit n (m + 1) s = lapBit n m s := by
  unfold lapBit
  rw [laps_succ_ne hs hne]

theorem lapBit_of_window {n m j : ℕ} (hm : m ≤ j) (hj : j < m + n) :
    lapBit n m (j % n) = (j / n % 2 == 1) := by
  rw [lapBit, laps_of_window hm hj]

theorem lapBit_of_behind {n m j : ℕ} (hj : j < m) (hm : m ≤ j + n) (hn : 0 < n) :
    lapBit n m (j % n) = !(j / n % 2 == 1) := by
  rw [lapBit, laps_of_behind hj hm hn]
  rcases Nat.mod_two_eq_zero_or_one (j / n) with h | h
  · simp [Nat.add_mod, h]
  · simp [Nat.add_mod, h]

@[simp] theorem lapBit_zero {n s : ℕ} (hs : s < n) : lapBit n 0 s = false := by
  obtain ⟨j, _, hj, rfl⟩ := exists_window 0 hs
  rw [lapBit_of_window (by omega) hj, Nat.div_eq_of_lt (by omega)]
  rfl

/-- Two positions less than one lap apart never share a slot. -/
theorem slot_ne {n i j : ℕ} (hij : i < j) (hj : j < i + n) : i % n ≠ j % n := by
  intro h
  have hi := Nat.div_add_mod i n
  have hjd := Nat.div_add_mod j n
  rw [h] at hi
  have hle : n * (i / n) < n * (j / n) := by omega
  have hlt : i / n < j / n := Nat.lt_of_mul_lt_mul_left hle
  have hmul : n * (i / n + 1) ≤ n * (j / n) := Nat.mul_le_mul_left n hlt
  rw [Nat.mul_add] at hmul
  omega

/-- The lap number advances exactly when the last slot is left. -/
theorem succ_div_of_last {n m : ℕ} (h : m % n + 1 = n) : (m + 1) / n = m / n + 1 := by
  have hdiv := Nat.div_add_mod m n
  have hm : m + 1 = n * (m / n + 1) := by rw [Nat.mul_add]; omega
  have hn : 0 < n := by omega
  rw [hm, Nat.mul_div_cancel_left _ hn]

theorem succ_div_of_not_last {n m : ℕ} (hn : 0 < n) (h : m % n + 1 ≠ n) :
    (m + 1) / n = m / n := by
  have hdiv := Nat.div_add_mod m n
  have hlt := Nat.mod_lt m hn
  apply Nat.div_eq_of_lt_le
  · rw [mul_comm]; omega
  · rw [Nat.succ_mul, mul_comm]; omega

end EspAmp.RingLaps
