import EspAmp.ByteMemory
import EspAmp.WordArith

/-!
# 64-bit arithmetic on the subcore

The subcore image cannot link against the compiler's library, so the component brings its
own division, shifts and bit searches. The search functions halve a word with masks. The
division shifts the numerator out of a word at the top while it shifts the quotient in at
the bottom, one bit late, and keeps the last comparison in `wrap`. A division by zero is
left out: the code answers it with `x = 1 / x`, which C does not define either.
-/
namespace EspAmp.Arith64
open ByteMemory WordArith

section Model

/-- `b = !(a & mask) << k; n += b; a <<= b;` on `(n, a)`. -/
def clzRound {w : ℕ} (mask : BitVec w) (k : ℕ) (s : ℕ × BitVec w) : ℕ × BitVec w :=
  let b := (decide (s.2 &&& mask = 0)).toNat <<< k
  (s.1 + b, s.2 <<< b)

/-- `b = !(a & mask) << k; n += b; a >>= b;` on `(n, a)`. -/
def ctzRound {w : ℕ} (mask : BitVec w) (k : ℕ) (s : ℕ × BitVec w) : ℕ × BitVec w :=
  let b := (decide (s.2 &&& mask = 0)).toNat <<< k
  (s.1 + b, s.2 >>> b)

/-- `__clzsi2` -/
def clzsi2 (a : U32) : ℕ :=
  let s := clzRound 0xffff0000 4 (0, a)
  let s := clzRound 0xff000000 3 s
  let s := clzRound 0xf0000000 2 s
  let s := clzRound 0xc0000000 1 s
  s.1 + (decide (s.2 &&& 0x80000000 = 0)).toNat

/-- `__clzdi2` -/
def clzdi2 (a : U64) : ℕ :=
  let s := clzRound 0xffffffff00000000 5 (0, a)
  let s := clzRound 0xffff000000000000 4 s
  let s := clzRound 0xff00000000000000 3 s
  let s := clzRound 0xf000000000000000 2 s
  let s := clzRound 0xc000000000000000 1 s
  s.1 + (decide (s.2 &&& 0x8000000000000000 = 0)).toNat

/-- `__ctzsi2` -/
def ctzsi2 (a : U32) : ℕ :=
  let s := ctzRound 0x0000ffff 4 (0, a)
  let s := ctzRound 0x000000ff 3 s
  let s := ctzRound 0x0000000f 2 s
  let s := ctzRound 0x00000003 1 s
  s.1 + (decide (s.2 &&& 0x00000001 = 0)).toNat

/-- `__ctzdi2` -/
def ctzdi2 (a : U64) : ℕ :=
  let s := ctzRound 0x00000000ffffffff 5 (0, a)
  let s := ctzRound 0x000000000000ffff 4 s
  let s := ctzRound 0x00000000000000ff 3 s
  let s := ctzRound 0x000000000000000f 2 s
  let s := ctzRound 0x0000000000000003 1 s
  s.1 + (decide (s.2 &&& 0x0000000000000001 = 0)).toNat

/-- `__ffsdi2` -/
def ffsdi2 (a : U64) : ℕ := if a = 0 then 0 else ctzdi2 a + 1

def arith64Hi (n : U64) : U32 := n.extractLsb' 32 32

def arith64Lo (n : U64) : U32 := n.extractLsb' 0 32

/-- The union `arith64_word`, from its halves. -/
def word (hi lo : U32) : U64 := hi ++ lo

/-- The variables of the loop of `__divmoddi4`. -/
structure Loop where
  rem : U64
  a : U64
  wrap : U64

/-- One turn of the loop. -/
def Loop.turn (b : U64) (s : Loop) : Loop :=
  let rem := (s.rem <<< 1) ||| (s.a >>> 63)
  let a := (s.a <<< 1) ||| (s.wrap &&& 1)
  let wrap := (b - rem - 1).sshiftRight 63
  ⟨rem - (b &&& wrap), a, wrap⟩

def Loop.run (b : U64) : ℕ → Loop → Loop
  | 0, s => s
  | bits + 1, s => Loop.run b bits (s.turn b)

/-- `arith64_neg` -/
def arith64Neg (a b : U64) : U64 :=
  (a ^^^ ((if b.msb then 0 else 1) - 1)) + (if b.msb then 1 else 0)

/-- `arith64_abs` -/
def arith64Abs (a : U64) : U64 := arith64Neg a a

theorem arith64Neg_eq (a b : U64) : arith64Neg a b = if b.msb then -a else a := by
  unfold arith64Neg
  by_cases hb : b.msb
  · have hones : (0 : U64) - 1 = BitVec.allOnes 64 := by decide
    rw [if_pos hb, if_pos hb, if_pos hb, hones, BitVec.xor_allOnes, BitVec.neg_eq_not_add]
    rfl
  · rw [if_neg hb, if_neg hb, if_neg hb]
    simp

theorem arith64Abs_ne_zero {a : U64} (ha : a ≠ 0) : arith64Abs a ≠ 0 := by
  rw [arith64Abs, arith64Neg_eq]
  split_ifs
  · exact mt BitVec.neg_eq_zero_iff.mp ha
  · exact ha

/-- A number that can be divided by. -/
structure Divisor where
  val : U64
  ne_zero : val ≠ 0

def Divisor.abs (b : Divisor) : Divisor := ⟨arith64Abs b.val, arith64Abs_ne_zero b.ne_zero⟩

/-- `__divmoddi4`: the quotient and the remainder. -/
def divmoddi4 (a : U64) (divisor : Divisor) : U64 × U64 :=
  let b := divisor.val
  if a < b then (0, a)
  else if arith64Hi b = 0 ∧ b = 1 then (a, 0)
  else if arith64Hi b = 0 ∧ arith64Hi a = 0 then
    ((arith64Lo a / arith64Lo b).setWidth 64, (arith64Lo a % arith64Lo b).setWidth 64)
  else
    let bits := clzdi2 b - clzdi2 a + 1
    let s := Loop.run b bits ⟨a >>> bits, a <<< (64 - bits), 0⟩
    ((s.a <<< 1) ||| (s.wrap &&& 1), s.rem)

/-- `__udivdi3` -/
def udivdi3 (a : U64) (b : Divisor) : U64 := (divmoddi4 a b).1

/-- `__umoddi3` -/
def umoddi3 (a : U64) (b : Divisor) : U64 := (divmoddi4 a b).2

/-- `__divdi3` -/
def divdi3 (a : U64) (b : Divisor) : U64 :=
  arith64Neg (divmoddi4 (arith64Abs a) b.abs).1 (a ^^^ b.val)

/-- `__moddi3` -/
def moddi3 (a : U64) (b : Divisor) : U64 := arith64Neg (divmoddi4 (arith64Abs a) b.abs).2 a

/-- `__ashldi3` -/
def ashldi3 (a : U64) (b : U32) : U64 :=
  let b := (b &&& 63).toNat
  if 32 ≤ b then word (arith64Lo a <<< (b - 32)) 0
  else if b ≠ 0 then
    word ((arith64Lo a >>> (32 - b)) ||| (arith64Hi a <<< b)) (arith64Lo a <<< b)
  else a

/-- `__lshrdi3` -/
def lshrdi3 (a : U64) (b : U32) : U64 :=
  let b := (b &&& 63).toNat
  if 32 ≤ b then word 0 (arith64Hi a >>> (b - 32))
  else if b ≠ 0 then
    word (arith64Hi a >>> b) ((arith64Hi a <<< (32 - b)) ||| (arith64Lo a >>> b))
  else a

/-- `__ashrdi3` -/
def ashrdi3 (a : U64) (b : U32) : U64 :=
  let b := (b &&& 63).toNat
  if 32 ≤ b then word ((arith64Hi a).sshiftRight 31) ((arith64Hi a).sshiftRight (b - 32))
  else if b ≠ 0 then
    word ((arith64Hi a).sshiftRight b) ((arith64Hi a <<< (32 - b)) ||| (arith64Lo a >>> b))
  else a

end Model

section Search
variable {w i k : ℕ} {a₀ : BitVec w} {s : ℕ × BitVec w}

theorem toNat_shiftLeft_eq_ite (p : Prop) [Decidable p] (k : ℕ) :
    (decide p).toNat <<< k = if p then 2 ^ k else 0 := by
  by_cases hp : p <;> simp [hp, Nat.shiftLeft_eq]

theorem clzRound_leading (h : Leading a₀ (2 * 2 ^ k) s.1 s.2) (hw : 2 * 2 ^ k ≤ w) :
    Leading a₀ (2 ^ k) (clzRound (highMask w (2 ^ k)) k s).1
      (clzRound (highMask w (2 ^ k)) k s).2 := by
  unfold clzRound
  rw [toNat_shiftLeft_eq_ite]
  exact h.round hw

theorem ctzRound_trailing (h : Trailing a₀ (2 * 2 ^ k) s.1 s.2) (hw : 2 ^ k ≤ w) :
    Trailing a₀ (2 ^ k) (ctzRound (lowMask w (2 ^ k)) k s).1
      (ctzRound (lowMask w (2 ^ k)) k s).2 := by
  unfold ctzRound
  rw [toNat_shiftLeft_eq_ite]
  exact h.round hw

/-- A word shifted up by the number of its leading zeros fills all bits. -/
theorem clzdi2_bounds {a : U64} (ha : a ≠ 0) :
    2 ^ 63 ≤ a.toNat * 2 ^ clzdi2 a ∧ a.toNat * 2 ^ clzdi2 a < 2 ^ 64 := by
  have h : Leading a 64 0 a := leading_of_ne_zero ha
  have h₅ := clzRound_leading (k := 5) (s := (0, a)) h (by decide)
  have h₄ := clzRound_leading (k := 4) h₅ (by decide)
  have h₃ := clzRound_leading (k := 3) h₄ (by decide)
  have h₂ := clzRound_leading (k := 2) h₃ (by decide)
  have h₁ := clzRound_leading (k := 1) h₂ (by decide)
  exact (clzRound_leading (k := 0) h₁ (by decide)).bounds

theorem clzsi2_bounds {a : U32} (ha : a ≠ 0) :
    2 ^ 31 ≤ a.toNat * 2 ^ clzsi2 a ∧ a.toNat * 2 ^ clzsi2 a < 2 ^ 32 := by
  have h : Leading a 32 0 a := leading_of_ne_zero ha
  have h₄ := clzRound_leading (k := 4) (s := (0, a)) h (by decide)
  have h₃ := clzRound_leading (k := 3) h₄ (by decide)
  have h₂ := clzRound_leading (k := 2) h₃ (by decide)
  have h₁ := clzRound_leading (k := 1) h₂ (by decide)
  exact (clzRound_leading (k := 0) h₁ (by decide)).bounds

theorem ctzdi2_divides {a : U64} (ha : a ≠ 0) :
    2 ^ ctzdi2 a ∣ a.toNat ∧ ¬ 2 ^ (ctzdi2 a + 1) ∣ a.toNat := by
  have h : Trailing a 64 0 a := trailing_of_ne_zero ha
  have h₅ := ctzRound_trailing (k := 5) (s := (0, a)) h (by decide)
  have h₄ := ctzRound_trailing (k := 4) h₅ (by decide)
  have h₃ := ctzRound_trailing (k := 3) h₄ (by decide)
  have h₂ := ctzRound_trailing (k := 2) h₃ (by decide)
  have h₁ := ctzRound_trailing (k := 1) h₂ (by decide)
  exact (ctzRound_trailing (k := 0) h₁ (by decide)).divides

theorem ctzsi2_divides {a : U32} (ha : a ≠ 0) :
    2 ^ ctzsi2 a ∣ a.toNat ∧ ¬ 2 ^ (ctzsi2 a + 1) ∣ a.toNat := by
  have h : Trailing a 32 0 a := trailing_of_ne_zero ha
  have h₄ := ctzRound_trailing (k := 4) (s := (0, a)) h (by decide)
  have h₃ := ctzRound_trailing (k := 3) h₄ (by decide)
  have h₂ := ctzRound_trailing (k := 2) h₃ (by decide)
  have h₁ := ctzRound_trailing (k := 1) h₂ (by decide)
  exact (ctzRound_trailing (k := 0) h₁ (by decide)).divides

/-- The searches stop at the highest and the lowest one of a word. -/
theorem search_finds_the_bit {a : U64} (ha : a ≠ 0) :
    clzdi2 a ≤ 63 ∧ a.getLsbD (63 - clzdi2 a) = true ∧
    (∀ i, 63 - clzdi2 a < i → a.getLsbD i = false) ∧
    a.getLsbD (ctzdi2 a) = true ∧ (∀ i < ctzdi2 a, a.getLsbD i = false) ∧
    ffsdi2 a = ctzdi2 a + 1 := by
  obtain ⟨hlo, hhi⟩ := clzdi2_bounds ha
  obtain ⟨hdvd, hnot⟩ := ctzdi2_divides ha
  have hle : clzdi2 a ≤ 63 := by
    by_contra hlt
    have hgrow : 2 ^ 64 ≤ 2 ^ clzdi2 a := Nat.pow_le_pow_right (by decide) (by omega)
    have hpos : 0 < a.toNat := Nat.pos_of_ne_zero fun h => ha (BitVec.eq_of_toNat_eq h)
    have hmul : 1 * 2 ^ 64 ≤ a.toNat * 2 ^ clzdi2 a := Nat.mul_le_mul hpos hgrow
    omega
  have htop : 2 ^ (63 - clzdi2 a) ≤ a.toNat := by
    refine Nat.le_of_mul_le_mul_right (c := 2 ^ clzdi2 a) ?_ (Nat.two_pow_pos _)
    rwa [← pow_add, Nat.sub_add_cancel hle]
  have hbelow : a.toNat < 2 ^ (63 - clzdi2 a + 1) := by
    refine Nat.lt_of_mul_lt_mul_right (a := 2 ^ clzdi2 a) ?_
    rwa [← pow_add, show 63 - clzdi2 a + 1 + clzdi2 a = 64 by omega]
  refine ⟨hle, ?_, fun i hi => ?_, ?_, fun i hi => ?_, if_neg ha⟩
  · rw [← BitVec.testBit_toNat]
    exact Nat.testBit_of_two_pow_le_and_two_pow_add_one_gt htop hbelow
  · rw [← BitVec.testBit_toNat]
    exact Nat.testBit_lt_two_pow (hbelow.trans_le (Nat.pow_le_pow_right (by decide) hi))
  · obtain ⟨q, hq⟩ := hdvd
    rw [← BitVec.testBit_toNat, hq, Nat.testBit_two_pow_mul, Nat.sub_self, Nat.testBit_zero]
    simp only [ge_iff_le, le_refl, decide_true, Bool.true_and, decide_eq_true_eq]
    by_contra hodd
    refine hnot ⟨q / 2, ?_⟩
    rw [pow_succ, mul_assoc, show 2 * (q / 2) = q by omega, ← hq]
  · obtain ⟨q, hq⟩ := hdvd
    rw [← BitVec.testBit_toNat, hq, Nat.testBit_two_pow_mul]
    simp [hi]

/-- In six, the highest one is the third bit and the lowest one the second. -/
theorem six_has_bits_one_and_two :
    (6 : U64).getLsbD (63 - clzdi2 6) = true ∧ (6 : U64).getLsbD (ctzdi2 6) = true ∧
    clzdi2 6 = 61 ∧ ctzdi2 6 = 1 := by
  obtain ⟨-, hlast, -, hfirst, -, -⟩ := search_finds_the_bit (a := 6) (by decide)
  exact ⟨hlast, hfirst, by decide, by decide⟩

end Search

section Division
variable {x d a b : U64} {A k : ℕ} {s : Loop}

/-- A bit shifted in at the bottom. -/
theorem toNat_shiftIn (hd : d.toNat < 2) :
    ((x <<< 1) ||| d).toNat = 2 * (x.toNat % 2 ^ 63) + d.toNat := by
  have hshift : (x <<< 1).toNat = (x.toNat % 2 ^ 63) <<< 1 := by
    rw [BitVec.toNat_shiftLeft, Nat.shiftLeft_eq, Nat.shiftLeft_eq]
    omega
  rw [BitVec.toNat_or, hshift, ← Nat.shiftLeft_add_eq_or_of_lt hd, Nat.shiftLeft_eq]
  omega

theorem sshiftRight_eq (x : U64) :
    x.sshiftRight 63 = if x.msb then BitVec.allOnes 64 else 0 := by
  refine BitVec.eq_of_getLsbD_eq fun i hi => ?_
  have hbit : (x.sshiftRight 63).getLsbD i = x.msb := by
    rw [BitVec.getLsbD_sshiftRight, BitVec.msb_eq_getLsbD_last]
    by_cases hi0 : i = 0
    · subst hi0
      simp
    · have hin : ¬ 64 ≤ i := by omega
      have hout : ¬ 63 + i < 64 := by omega
      simp [hin, hout]
  rw [hbit]
  cases x.msb with
  | false => rw [if_neg Bool.false_ne_true]; exact BitVec.getLsbD_zero.symm
  | true => rw [if_pos rfl, BitVec.getLsbD_allOnes, decide_eq_true hi]

/-- The comparison in `wrap`: the subtraction does not leave the signed range. -/
theorem wrap_eq {r : U64} (hrange : b.toNat ≤ 2 ^ 63 ∨ b ≤ r) (hr : r.toNat < 2 * b.toNat) :
    (b - r - 1).sshiftRight 63 = if b ≤ r then BitVec.allOnes 64 else 0 := by
  have hmsb : (b - r - 1).msb = decide (b ≤ r) := by
    rw [BitVec.msb_eq_decide]
    refine decide_eq_decide.mpr ?_
    have hb := b.isLt
    have hr' := r.isLt
    rw [BitVec.le_def] at hrange ⊢
    rw [BitVec.toNat_sub, BitVec.toNat_sub]
    change 2 ^ 63 ≤ (2 ^ 64 - 1 + (2 ^ 64 - r.toNat + b.toNat) % 2 ^ 64) % 2 ^ 64 ↔ _
    omega
  rw [sshiftRight_eq, hmsb]
  by_cases hle : b ≤ r <;> simp [hle]

/-- With `k` bits of the numerator still at the top of `a`, the bits in front of them are
divided: the quotient is at the bottom of `a`, except for its last bit, which is in `wrap`. -/
structure Divided (A : ℕ) (b : U64) (k q : ℕ) (s : Loop) : Prop where
  prefixed : A / 2 ^ k = q * b.toNat + s.rem.toNat
  rem_lt : s.rem < b
  register : s.a.toNat = A % 2 ^ k * 2 ^ (64 - k) + q / 2
  last : (s.wrap &&& 1).toNat = q % 2
  fits : q < 2 ^ (64 - k)

/-- The register splits into the next bit of the numerator and the rest. -/
theorem register_split {q : ℕ} (hk : k + 1 ≤ 63) (hq : q < 2 ^ (64 - (k + 1)))
    (ha : a.toNat = A % 2 ^ (k + 1) * 2 ^ (64 - (k + 1)) + q / 2) :
    a.toNat / 2 ^ 63 = A / 2 ^ k % 2 ∧
      a.toNat % 2 ^ 63 = A % 2 ^ k * 2 ^ (64 - (k + 1)) + q / 2 := by
  have hpow : 2 ^ k * 2 ^ (64 - (k + 1)) = 2 ^ 63 := by
    rw [← pow_add]
    congr 1
    omega
  have hrest : A % 2 ^ k * 2 ^ (64 - (k + 1)) + 2 ^ (64 - (k + 1)) ≤ 2 ^ 63 := by
    rw [← hpow, ← Nat.succ_mul]
    exact Nat.mul_le_mul_right _ (Nat.mod_lt _ (Nat.two_pow_pos k))
  have hsum : a.toNat = A / 2 ^ k % 2 * 2 ^ 63 +
      (A % 2 ^ k * 2 ^ (64 - (k + 1)) + q / 2) := by
    rw [ha, rest_bits, add_mul, mul_assoc, hpow, add_assoc]
  rw [hsum]
  omega

theorem turn_divided {q : ℕ} (h : Divided A b (k + 1) q s) (hk : k + 1 ≤ 63)
    (hfits : 2 * s.rem.toNat + A / 2 ^ k % 2 < 2 ^ 64)
    (hrange : b.toNat ≤ 2 ^ 63 ∨ b.toNat ≤ 2 * s.rem.toNat + A / 2 ^ k % 2) :
    ∃ q', Divided A b k q' (s.turn b) := by
  obtain ⟨hbit, hrest⟩ := register_split hk h.fits h.register
  have hbitLt : A / 2 ^ k % 2 < 2 := Nat.mod_lt _ (by decide)
  have hremLt : s.rem.toNat < b.toNat := h.rem_lt
  have htop : (s.a >>> 63).toNat = A / 2 ^ k % 2 := by
    rw [BitVec.toNat_ushiftRight, Nat.shiftRight_eq_div_pow, hbit]
  have hrem : ((s.rem <<< 1) ||| (s.a >>> 63)).toNat = 2 * s.rem.toNat + A / 2 ^ k % 2 := by
    rw [toNat_shiftIn (by omega), htop, Nat.mod_eq_of_lt (by omega)]
  have ha : ((s.a <<< 1) ||| (s.wrap &&& 1)).toNat = A % 2 ^ k * 2 ^ (64 - k) + q := by
    have hpow : 2 ^ (64 - k) = 2 * 2 ^ (64 - (k + 1)) := by
      rw [← pow_succ']
      congr 1
      omega
    rw [toNat_shiftIn (by rw [h.last]; omega), hrest, h.last, hpow]
    have hq := Nat.div_add_mod q 2
    ring_nf at hq ⊢
    omega
  set r := (s.rem <<< 1) ||| (s.a >>> 63)
  have hle : b ≤ r ↔ b.toNat ≤ 2 * s.rem.toNat + A / 2 ^ k % 2 := by rw [BitVec.le_def, hrem]
  have hwrap := wrap_eq (b := b) (r := r) (hrange.imp_right hle.mpr) (by rw [hrem]; omega)
  have hturn : s.turn b = ⟨r - (b &&& (b - r - 1).sshiftRight 63),
      (s.a <<< 1) ||| (s.wrap &&& 1), (b - r - 1).sshiftRight 63⟩ := rfl
  have hdouble : 2 ^ (64 - k) = 2 * 2 ^ (64 - (k + 1)) := by
    rw [← pow_succ']
    congr 1
    omega
  have hq := h.fits
  have hstep := division_step h.prefixed hremLt
  rw [hturn, hwrap]
  by_cases hb : b ≤ r
  · obtain ⟨hscanned, hlt⟩ := hstep.1 (hle.mp hb)
    have hsub : (r - b).toNat = r.toNat - b.toNat := BitVec.toNat_sub_of_le hb
    refine ⟨2 * q + 1, ?_⟩
    rw [if_pos hb, BitVec.and_allOnes]
    refine ⟨?_, ?_, ?_, ?_, by omega⟩
    · rw [hsub, hrem]
      exact hscanned
    · rw [BitVec.lt_def, hsub, hrem]
      exact hlt
    · rw [ha]
      omega
    · rw [BitVec.allOnes_and]
      simp
  · have hscanned := hstep.2 (by rw [hle] at hb; omega)
    refine ⟨2 * q, ?_⟩
    rw [if_neg hb]
    refine ⟨?_, ?_, ?_, ?_, by omega⟩
    · simpa [hrem] using hscanned
    · simpa using BitVec.not_le.mp hb
    · rw [ha]
      omega
    · simp

theorem run_divided {q : ℕ} (h : Divided A b k q s) (hk : k ≤ 63) (hb : b.toNat ≤ 2 ^ 63) :
    ∃ q', Divided A b 0 q' (Loop.run b k s) := by
  induction k generalizing q s with
  | zero => exact ⟨q, h⟩
  | succ k ih =>
      have hrem : s.rem.toNat < b.toNat := h.rem_lt
      have hbit : A / 2 ^ k % 2 < 2 := Nat.mod_lt _ (by decide)
      obtain ⟨q', hq'⟩ := turn_divided h hk (by omega) (.inl hb)
      exact ih hq' (by omega)

/-- The loop starts with nothing divided. -/
theorem start_divided {bits : ℕ} (hpos : 0 < bits) (hbits : bits ≤ 63)
    (hlt : a.toNat < b.toNat * 2 ^ bits) :
    Divided a.toNat b bits 0 ⟨a >>> bits, a <<< (64 - bits), 0⟩ := by
  have hrem : (a >>> bits).toNat = a.toNat / 2 ^ bits := by
    rw [BitVec.toNat_ushiftRight, Nat.shiftRight_eq_div_pow]
  have hpow : 2 ^ bits * 2 ^ (64 - bits) = 2 ^ 64 := by
    rw [← pow_add]
    congr 1
    omega
  refine ⟨?_, ?_, ?_, by simp, Nat.two_pow_pos _⟩
  · rw [hrem, zero_mul, zero_add]
  · rw [BitVec.lt_def, hrem]
    exact (Nat.div_lt_iff_lt_mul (Nat.two_pow_pos bits)).mpr hlt
  · rw [BitVec.toNat_shiftLeft, Nat.shiftLeft_eq, ← hpow, Nat.mul_mod_mul_right]
    simp

/-- What the loop leaves is the quotient, once `wrap` is shifted in, and the remainder. -/
theorem Divided.result {q : ℕ} (h : Divided A b 0 q s) :
    ((s.a <<< 1) ||| (s.wrap &&& 1)).toNat = A / b.toNat ∧ s.rem.toNat = A % b.toNat := by
  have hscanned := h.prefixed
  have hrem : s.rem.toNat < b.toNat := h.rem_lt
  have hregister := h.register
  have hfits := h.fits
  rw [pow_zero, Nat.div_one] at hscanned
  rw [pow_zero, Nat.mod_one, zero_mul, zero_add] at hregister
  have hquotient : A / b.toNat = q := by
    rw [hscanned, add_comm, Nat.add_mul_div_right _ _ (by omega), Nat.div_eq_of_lt hrem, zero_add]
  have hremainder : A % b.toNat = s.rem.toNat := by
    rw [hscanned, add_comm, Nat.add_mul_mod_self_right, Nat.mod_eq_of_lt hrem]
  refine ⟨?_, hremainder.symm⟩
  rw [toNat_shiftIn (by rw [h.last]; omega), h.last, hregister, hquotient]
  omega

/-- The number of bits to divide, from the leading zeros of two numbers. -/
theorem bits_bounds (ha : a ≠ 0) (hb : b ≠ 0) (hle : b ≤ a) (htwo : 2 ≤ b.toNat) :
    let bits := clzdi2 b - clzdi2 a + 1
    bits ≤ 63 ∧ a.toNat < b.toNat * 2 ^ bits ∧ (2 ^ 63 < b.toNat → bits = 1) := by
  obtain ⟨halo, hahi⟩ := clzdi2_bounds ha
  obtain ⟨hblo, hbhi⟩ := clzdi2_bounds hb
  have hba : b.toNat ≤ a.toNat := hle
  have horder : clzdi2 a ≤ clzdi2 b := by
    by_contra hlt
    have hgrow : 2 * 2 ^ clzdi2 b ≤ 2 ^ clzdi2 a := by
      rw [← pow_succ']
      exact Nat.pow_le_pow_right (by decide) (by omega)
    have hmul : b.toNat * (2 * 2 ^ clzdi2 b) ≤ a.toNat * 2 ^ clzdi2 a := Nat.mul_le_mul hba hgrow
    have hdouble : b.toNat * (2 * 2 ^ clzdi2 b) = 2 * (b.toNat * 2 ^ clzdi2 b) := by ring
    omega
  have hzeros : clzdi2 b ≤ 62 := by
    by_contra hlt
    have hgrow : 2 ^ 63 ≤ 2 ^ clzdi2 b := Nat.pow_le_pow_right (by decide) (by omega)
    have hmul : 2 * 2 ^ 63 ≤ b.toNat * 2 ^ clzdi2 b := Nat.mul_le_mul htwo hgrow
    omega
  refine ⟨by omega, ?_, fun hbig => ?_⟩
  · have hsplit : b.toNat * 2 ^ (clzdi2 b - clzdi2 a + 1) * 2 ^ clzdi2 a =
        2 * (b.toNat * 2 ^ clzdi2 b) := by
      rw [mul_assoc, ← pow_add, show clzdi2 b - clzdi2 a + 1 + clzdi2 a = clzdi2 b + 1 by omega]
      ring
    refine Nat.lt_of_mul_lt_mul_right (a := 2 ^ clzdi2 a) ?_
    omega
  · have hzero : clzdi2 b = 0 := by
      by_contra hne
      have hgrow : 2 ^ 1 ≤ 2 ^ clzdi2 b := Nat.pow_le_pow_right (by decide) (by omega)
      have hmul : b.toNat * 2 ^ 1 ≤ b.toNat * 2 ^ clzdi2 b := Nat.mul_le_mul_left _ hgrow
      omega
    omega

theorem loop_divided (hle : b ≤ a) (htwo : 2 ≤ b.toNat) :
    let bits := clzdi2 b - clzdi2 a + 1
    ∃ q, Divided a.toNat b 0 q (Loop.run b bits ⟨a >>> bits, a <<< (64 - bits), 0⟩) := by
  intro bits
  have hba : b.toNat ≤ a.toNat := hle
  have hb : b ≠ 0 := by
    rintro rfl
    exact absurd htwo (by decide)
  have ha : a ≠ 0 := by
    rintro rfl
    exact absurd (htwo.trans hba) (by decide)
  obtain ⟨hbits, hlt, hone⟩ := bits_bounds ha hb hle htwo
  have hstart : Divided a.toNat b bits 0 ⟨a >>> bits, a <<< (64 - bits), 0⟩ :=
    start_divided (Nat.succ_pos _) hbits hlt
  by_cases hbig : b.toNat ≤ 2 ^ 63
  · exact run_divided hstart hbits hbig
  · -- the numerator has no more bits than the divisor, and one turn compares them
    have hbit : bits = 1 := hone (by omega)
    have hwhole := next_bit a.toNat 0
    have hhalf : (a >>> 1).toNat = a.toNat / 2 ^ (0 + 1) := by
      rw [BitVec.toNat_ushiftRight, Nat.shiftRight_eq_div_pow]
    rw [pow_zero, Nat.div_one] at hwhole
    rw [hbit] at hstart ⊢
    refine turn_divided hstart (by decide) ?_ (.inr ?_)
    · rw [hhalf, pow_zero, Nat.div_one, ← hwhole]
      exact a.isLt
    · rw [hhalf, pow_zero, Nat.div_one, ← hwhole]
      exact hba

theorem arith64Hi_eq_zero_iff : arith64Hi a = 0 ↔ a.toNat < 2 ^ 32 := by
  have ha := a.isLt
  rw [arith64Hi, ← BitVec.toNat_inj, BitVec.extractLsb'_toNat, Nat.shiftRight_eq_div_pow]
  change a.toNat / 2 ^ 32 % 2 ^ 32 = 0 ↔ _
  omega

theorem toNat_arith64Lo (ha : a.toNat < 2 ^ 32) : (arith64Lo a).toNat = a.toNat := by
  rw [arith64Lo, BitVec.extractLsb'_toNat, Nat.shiftRight_zero, Nat.mod_eq_of_lt ha]

theorem divmoddi4_eq (a : U64) (divisor : Divisor) :
    divmoddi4 a divisor = (a / divisor.val, a % divisor.val) := by
  obtain ⟨b, hb⟩ := divisor
  have hpos : 0 < b.toNat := Nat.pos_of_ne_zero fun h => hb (BitVec.eq_of_toNat_eq h)
  simp only [divmoddi4]
  by_cases hlt : a < b
  · have hltNat : a.toNat < b.toNat := hlt
    rw [if_pos hlt]
    refine Prod.ext (BitVec.eq_of_toNat_eq ?_) (BitVec.eq_of_toNat_eq ?_)
    · exact (BitVec.toNat_udiv.trans (Nat.div_eq_of_lt hltNat)).symm
    · exact (BitVec.toNat_umod.trans (Nat.mod_eq_of_lt hltNat)).symm
  rw [if_neg hlt]
  by_cases hone : arith64Hi b = 0 ∧ b = 1
  · rw [if_pos hone, hone.2]
    simp
  rw [if_neg hone]
  by_cases hsmall : arith64Hi b = 0 ∧ arith64Hi a = 0
  · have hbsmall := arith64Hi_eq_zero_iff.mp hsmall.1
    have hasmall := arith64Hi_eq_zero_iff.mp hsmall.2
    rw [if_pos hsmall]
    refine Prod.ext (BitVec.eq_of_toNat_eq ?_) (BitVec.eq_of_toNat_eq ?_)
    · rw [BitVec.toNat_setWidth, BitVec.toNat_udiv, BitVec.toNat_udiv, toNat_arith64Lo hasmall,
        toNat_arith64Lo hbsmall]
      exact Nat.mod_eq_of_lt ((Nat.div_le_self _ _).trans_lt a.isLt)
    · rw [BitVec.toNat_setWidth, BitVec.toNat_umod, BitVec.toNat_umod, toNat_arith64Lo hasmall,
        toNat_arith64Lo hbsmall]
      exact Nat.mod_eq_of_lt ((Nat.mod_le _ _).trans_lt a.isLt)
  rw [if_neg hsmall]
  have htwo : 2 ≤ b.toNat := by
    by_contra hle
    have hbone : b = 1 := BitVec.eq_of_toNat_eq (show b.toNat = 1 by omega)
    exact hone ⟨by rw [hbone]; rfl, hbone⟩
  obtain ⟨q, hq⟩ := loop_divided (BitVec.not_lt.mp hlt) htwo
  obtain ⟨hquotient, hremainder⟩ := hq.result
  refine Prod.ext (BitVec.eq_of_toNat_eq ?_) (BitVec.eq_of_toNat_eq ?_)
  · exact hquotient.trans BitVec.toNat_udiv.symm
  · exact hremainder.trans BitVec.toNat_umod.symm

end Division

section Signed

theorem divdi3_eq (a : U64) (b : Divisor) : divdi3 a b = a.sdiv b.val := by
  rw [divdi3, divmoddi4_eq, BitVec.sdiv_eq, arith64Neg_eq, BitVec.msb_xor]
  simp only [Divisor.abs, arith64Abs, arith64Neg_eq]
  cases a.msb <;> cases b.val.msb <;> simp [BitVec.udiv_eq]

theorem moddi3_eq (a : U64) (b : Divisor) : moddi3 a b = a.srem b.val := by
  rw [moddi3, divmoddi4_eq, BitVec.srem_eq, arith64Neg_eq]
  simp only [Divisor.abs, arith64Abs, arith64Neg_eq]
  cases a.msb <;> cases b.val.msb <;> simp

/-- Each routine gives the number the operator stands for. The least number divided by
minus one wraps around. -/
theorem division_is_exact (a : U64) (b : Divisor) :
    (udivdi3 a b).toNat = a.toNat / b.val.toNat ∧
    (umoddi3 a b).toNat = a.toNat % b.val.toNat ∧
    (divdi3 a b).toInt = (a.toInt.tdiv b.val.toInt).bmod (2 ^ 64) ∧
    (moddi3 a b).toInt = a.toInt.tmod b.val.toInt := by
  rw [udivdi3, umoddi3, divmoddi4_eq, divdi3_eq, moddi3_eq, BitVec.toInt_sdiv, BitVec.toInt_srem]
  exact ⟨BitVec.toNat_udiv, BitVec.toNat_umod, rfl, rfl⟩

end Signed

section Shift
variable {a : U64}

theorem getLsbD_word (hi lo : U32) (i : ℕ) :
    (word hi lo).getLsbD i = if i < 32 then lo.getLsbD i else hi.getLsbD (i - 32) := by
  unfold word
  rw [BitVec.getLsbD_append]

theorem getLsbD_arith64Lo (a : U64) (i : ℕ) :
    (arith64Lo a).getLsbD i = (decide (i < 32) && a.getLsbD i) := by
  simp [arith64Lo]

theorem getLsbD_arith64Hi (a : U64) (i : ℕ) :
    (arith64Hi a).getLsbD i = (decide (i < 32) && a.getLsbD (32 + i)) := by
  simp [arith64Hi]

theorem count_lt (b : U32) : (b &&& 63).toNat < 64 := by
  have h : (b &&& 63).toNat ≤ (63 : U32).toNat := by
    rw [BitVec.toNat_and]
    exact Nat.and_le_right
  exact h.trans_lt (by decide)

/-- The low half of a right shift by less than a half, of either kind. -/
theorem getLsbD_shifted_down {n i : ℕ} (hn : n < 32) (hi : i < 32) :
    ((arith64Hi a <<< (32 - n)) ||| (arith64Lo a >>> n)).getLsbD i = a.getLsbD (n + i) := by
  rw [BitVec.getLsbD_or, BitVec.getLsbD_shiftLeft, BitVec.getLsbD_ushiftRight, getLsbD_arith64Hi,
    getLsbD_arith64Lo]
  by_cases hcross : n + i < 32
  · have hbelow : i < 32 - n := by omega
    simp [hi, hbelow, hcross]
  · have habove : ¬ i < 32 - n := by omega
    have hinside : i - (32 - n) < 32 := by omega
    have hindex : 32 + (i - (32 - n)) = n + i := by omega
    simp [hi, habove, hinside, hindex, hcross]

theorem ashldi3_eq (a : U64) (b : U32) : ashldi3 a b = a <<< (b &&& 63).toNat := by
  have hlt := count_lt b
  unfold ashldi3
  generalize (b &&& 63).toNat = n at hlt
  refine BitVec.eq_of_getLsbD_eq fun i hi => ?_
  rw [BitVec.getLsbD_shiftLeft]
  by_cases hhigh : 32 ≤ n
  · rw [if_pos hhigh, getLsbD_word, BitVec.getLsbD_shiftLeft, getLsbD_arith64Lo]
    grind
  rw [if_neg hhigh]
  by_cases hzero : n ≠ 0
  · rw [if_pos hzero, getLsbD_word, BitVec.getLsbD_or, BitVec.getLsbD_ushiftRight,
      BitVec.getLsbD_shiftLeft, BitVec.getLsbD_shiftLeft, getLsbD_arith64Lo, getLsbD_arith64Lo,
      getLsbD_arith64Hi]
    grind
  · rw [if_neg hzero]
    grind

theorem lshrdi3_eq (a : U64) (b : U32) : lshrdi3 a b = a >>> (b &&& 63).toNat := by
  have hlt := count_lt b
  unfold lshrdi3
  generalize (b &&& 63).toNat = n at hlt
  refine BitVec.eq_of_getLsbD_eq fun i hi => ?_
  rw [BitVec.getLsbD_ushiftRight]
  by_cases hhigh : 32 ≤ n
  · rw [if_pos hhigh, getLsbD_word, BitVec.getLsbD_ushiftRight, getLsbD_arith64Hi]
    grind
  rw [if_neg hhigh]
  by_cases hzero : n ≠ 0
  · rw [if_pos hzero, getLsbD_word, BitVec.getLsbD_ushiftRight, getLsbD_arith64Hi]
    by_cases hlow : i < 32
    · rw [if_pos hlow, getLsbD_shifted_down (by omega) hlow]
    · rw [if_neg hlow]
      grind
  · rw [if_neg hzero]
    grind

theorem ashrdi3_eq (a : U64) (b : U32) : ashrdi3 a b = a.sshiftRight (b &&& 63).toNat := by
  have hlt := count_lt b
  have hsign : (arith64Hi a).msb = a.msb := by
    rw [BitVec.msb_eq_getLsbD_last, BitVec.msb_eq_getLsbD_last, getLsbD_arith64Hi]
    rfl
  unfold ashrdi3
  generalize (b &&& 63).toNat = n at hlt
  refine BitVec.eq_of_getLsbD_eq fun i hi => ?_
  rw [BitVec.getLsbD_sshiftRight]
  by_cases hhigh : 32 ≤ n
  · rw [if_pos hhigh, getLsbD_word, BitVec.getLsbD_sshiftRight, BitVec.getLsbD_sshiftRight, hsign,
      getLsbD_arith64Hi, getLsbD_arith64Hi, BitVec.msb_eq_getLsbD_last]
    grind
  rw [if_neg hhigh]
  by_cases hzero : n ≠ 0
  · rw [if_pos hzero, getLsbD_word, BitVec.getLsbD_sshiftRight, hsign, getLsbD_arith64Hi]
    by_cases hlow : i < 32
    · rw [if_pos hlow, getLsbD_shifted_down (by omega) hlow]
      grind
    · rw [if_neg hlow]
      grind
  · rw [if_neg hzero, not_not.mp hzero]
    grind

/-- A shift of the two halves is the shift of the word, by the count modulo the width. -/
theorem shift_is_exact (a : U64) (b : U32) :
    (ashldi3 a b).toNat = a.toNat * 2 ^ (b.toNat % 64) % 2 ^ 64 ∧
    (lshrdi3 a b).toNat = a.toNat / 2 ^ (b.toNat % 64) ∧
    (ashrdi3 a b).toInt = a.toInt / 2 ^ (b.toNat % 64) := by
  have hcount : (b &&& 63).toNat = b.toNat % 64 := by
    rw [BitVec.toNat_and]
    exact Nat.and_two_pow_sub_one_eq_mod b.toNat 6
  rw [ashldi3_eq, lshrdi3_eq, ashrdi3_eq, hcount, BitVec.toNat_shiftLeft, Nat.shiftLeft_eq,
    BitVec.toNat_ushiftRight, Nat.shiftRight_eq_div_pow, BitVec.toInt_sshiftRight,
    Int.shiftRight_eq_div_pow]
  exact ⟨rfl, rfl, by push_cast; rfl⟩

end Shift

end EspAmp.Arith64
