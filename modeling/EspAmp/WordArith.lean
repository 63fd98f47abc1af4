import Mathlib.Data.Nat.Log
import Mathlib.Data.Nat.Bitwise
import Mathlib.Tactic.Ring
import Mathlib.Tactic.Linarith

/-!
# Searching and dividing words bit by bit

The position of the first or last one of a word is found by halving the part of the word
in which it lies, and shifting that part to the end that is looked at. A quotient is found
by taking the bits of the numerator one by one, from the top, into a remainder. Words have
any width; division is about natural numbers, as one step of a loop.
-/
namespace EspAmp.WordArith

section Search
variable {w i j n : ℕ} {a a₀ : BitVec w}

/-- Ones in the highest `j` bits. -/
def highMask (w j : ℕ) : BitVec w := BitVec.allOnes w <<< (w - j)

/-- Ones in the lowest `j` bits. -/
def lowMask (w j : ℕ) : BitVec w := BitVec.ofNat w (2 ^ j - 1)

theorem and_highMask_eq_zero_iff : a &&& highMask w j = 0 ↔ a.toNat < 2 ^ (w - j) := by
  constructor
  · intro h
    refine Nat.lt_pow_two_of_testBit _ fun k hk => ?_
    rw [BitVec.testBit_toNat]
    by_cases hkw : k < w
    · have hmask : (highMask w j).getLsbD k = true := by simp [highMask, hkw, hk]
      have hbit : (a &&& highMask w j).getLsbD k = false := by rw [h]; exact BitVec.getLsbD_zero
      rwa [BitVec.getLsbD_and, hmask, Bool.and_true] at hbit
    · exact BitVec.getLsbD_of_ge a k (by omega)
  · intro h
    refine BitVec.eq_of_getLsbD_eq fun k _ => ?_
    by_cases hk : k < w - j
    · simp [highMask, hk]
    · have hzero : a.getLsbD k = false := by
        rw [← BitVec.testBit_toNat]
        refine Nat.testBit_lt_two_pow (h.trans_le ?_)
        exact Nat.pow_le_pow_right (by decide) (by omega)
      simp [hzero]

theorem and_lowMask_eq_zero_iff (hj : j ≤ w) : a &&& lowMask w j = 0 ↔ 2 ^ j ∣ a.toNat := by
  have hmask : (lowMask w j).toNat = 2 ^ j - 1 := by
    have hle : 2 ^ j ≤ 2 ^ w := Nat.pow_le_pow_right (by decide) hj
    have hpos : 0 < 2 ^ j := Nat.two_pow_pos j
    rw [lowMask, BitVec.toNat_ofNat, Nat.mod_eq_of_lt (by omega)]
  rw [← BitVec.toNat_inj, BitVec.toNat_and, hmask, Nat.and_two_pow_sub_one_eq_mod,
    Nat.dvd_iff_mod_eq_zero]
  rfl

/-- The word was shifted up by `n`, and has a one among its highest `j` bits. -/
structure Leading (a₀ : BitVec w) (j n : ℕ) (a : BitVec w) : Prop where
  shifted : a.toNat = a₀.toNat * 2 ^ n
  high : 2 ^ (w - j) ≤ a.toNat

theorem leading_of_ne_zero (h : a ≠ 0) : Leading a w 0 a := by
  refine ⟨by simp, ?_⟩
  rw [Nat.sub_self, pow_zero]
  exact Nat.pos_of_ne_zero fun hzero => h (BitVec.eq_of_toNat_eq hzero)

/-- A word without a one in the highest half of that part is shifted up by it. -/
theorem Leading.round (h : Leading a₀ (2 * i) n a) (hi : 2 * i ≤ w) :
    Leading a₀ i (n + if a &&& highMask w i = 0 then i else 0)
      (a <<< if a &&& highMask w i = 0 then i else 0) := by
  by_cases hzero : a &&& highMask w i = 0
  · have hlt := and_highMask_eq_zero_iff.mp hzero
    have hsplit : 2 ^ (w - i) * 2 ^ i = 2 ^ w := by rw [← pow_add]; congr 1; omega
    have hhalf : 2 ^ (w - 2 * i) * 2 ^ i = 2 ^ (w - i) := by rw [← pow_add]; congr 1; omega
    have htoNat : (a <<< i).toNat = a.toNat * 2 ^ i := by
      rw [BitVec.toNat_shiftLeft, Nat.shiftLeft_eq, Nat.mod_eq_of_lt]
      rw [← hsplit]
      exact Nat.mul_lt_mul_of_pos_right hlt (Nat.two_pow_pos i)
    rw [if_pos hzero]
    refine ⟨?_, ?_⟩
    · rw [htoNat, h.shifted, pow_add, mul_assoc]
    · rw [htoNat, ← hhalf]
      exact Nat.mul_le_mul_right _ h.high
  · rw [if_neg hzero]
    refine ⟨by simpa using h.shifted, ?_⟩
    rw [and_highMask_eq_zero_iff, not_lt] at hzero
    simpa using hzero

theorem Leading.bounds (h : Leading a₀ 1 n a) :
    2 ^ (w - 1) ≤ a₀.toNat * 2 ^ n ∧ a₀.toNat * 2 ^ n < 2 ^ w := by
  rw [← h.shifted]
  exact ⟨h.high, a.isLt⟩

/-- The word was shifted down by `n` zeros, and has a one among its lowest `j` bits. -/
structure Trailing (a₀ : BitVec w) (j n : ℕ) (a : BitVec w) : Prop where
  shifted : a.toNat * 2 ^ n = a₀.toNat
  low : ¬ 2 ^ j ∣ a.toNat

theorem trailing_of_ne_zero (h : a ≠ 0) : Trailing a w 0 a := by
  refine ⟨by simp, fun hdvd => ?_⟩
  have hzero := Nat.eq_zero_of_dvd_of_lt hdvd a.isLt
  exact h (BitVec.eq_of_toNat_eq hzero)

theorem Trailing.round (h : Trailing a₀ (2 * i) n a) (hi : i ≤ w) :
    Trailing a₀ i (n + if a &&& lowMask w i = 0 then i else 0)
      (a >>> if a &&& lowMask w i = 0 then i else 0) := by
  by_cases hzero : a &&& lowMask w i = 0
  · obtain ⟨q, hq⟩ := (and_lowMask_eq_zero_iff hi).mp hzero
    have htoNat : (a >>> i).toNat = q := by
      rw [BitVec.toNat_ushiftRight, Nat.shiftRight_eq_div_pow, hq,
        Nat.mul_div_cancel_left _ (Nat.two_pow_pos i)]
    rw [if_pos hzero]
    refine ⟨?_, fun hdvd => h.low ?_⟩
    · rw [htoNat, ← h.shifted, hq, pow_add]
      ring
    · rw [htoNat] at hdvd
      rw [hq, two_mul, pow_add]
      exact Nat.mul_dvd_mul_left _ hdvd
  · rw [if_neg hzero]
    rw [and_lowMask_eq_zero_iff hi] at hzero
    exact ⟨by simpa using h.shifted, by simpa using hzero⟩

theorem Trailing.divides (h : Trailing a₀ 1 n a) :
    2 ^ n ∣ a₀.toNat ∧ ¬ 2 ^ (n + 1) ∣ a₀.toNat := by
  refine ⟨⟨a.toNat, by rw [← h.shifted, mul_comm]⟩, fun hdvd => h.low ?_⟩
  rw [← h.shifted, mul_comm, pow_succ] at hdvd
  exact Nat.dvd_of_mul_dvd_mul_left (Nat.two_pow_pos n) hdvd

end Search

section Division
variable {A b q r k : ℕ}

/-- The next bit of the numerator, from the top, with `k` bits behind it. -/
theorem next_bit (A k : ℕ) : A / 2 ^ k = 2 * (A / 2 ^ (k + 1)) + A / 2 ^ k % 2 := by
  have hdiv : A / 2 ^ (k + 1) = A / 2 ^ k / 2 := by rw [Nat.div_div_eq_div_mul, pow_succ]
  rw [hdiv, Nat.div_add_mod]

/-- One step of a division: the next bit joins the remainder, from which the divisor is
taken where it fits. -/
theorem division_step (h : A / 2 ^ (k + 1) = q * b + r) (hr : r < b) :
    let r' := 2 * r + A / 2 ^ k % 2
    (b ≤ r' → A / 2 ^ k = (2 * q + 1) * b + (r' - b) ∧ r' - b < b) ∧
      (r' < b → A / 2 ^ k = 2 * q * b + r') := by
  intro r'
  have hbit := next_bit A k
  have hlt : A / 2 ^ k % 2 < 2 := Nat.mod_lt _ (by decide)
  have hsum : A / 2 ^ k = 2 * q * b + r' := by
    rw [hbit, h]
    simp only [r']
    ring
  refine ⟨fun hle => ⟨?_, by omega⟩, fun _ => hsum⟩
  rw [hsum, add_mul, one_mul]
  omega

/-- The bits behind the next one. -/
theorem rest_bits (A k : ℕ) : A % 2 ^ (k + 1) = A / 2 ^ k % 2 * 2 ^ k + A % 2 ^ k := by
  rw [pow_succ, Nat.mod_mul, add_comm, mul_comm]

end Division
end EspAmp.WordArith
