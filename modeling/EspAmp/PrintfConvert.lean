import EspAmp.Printf
import Mathlib.Data.Nat.Digits.Lemmas

/-!
# What each conversion emits

One equation for every case of the formatter. The digits of `_cvt` are those of the value
in its radix, most significant first; they and their terminator fit the conversion buffer
and overwrite its front. The shared part then emits a layout of the characters at `cp`.
-/
namespace EspAmp.Printf
open ByteMemory

section Words

theorem int32_of_range {x : ℤ} (hlow : -2 ^ 31 ≤ x) (hhigh : x < 2 ^ 31) : int32 x = x :=
  Int.bmod_eq_of_le (by norm_num; omega) (by norm_num; omega)

theorem int32_range (x : ℤ) : -2 ^ 31 ≤ int32 x ∧ int32 x < 2 ^ 31 := by
  have hlow : -((2 ^ 32 : ℕ) / 2 : ℤ) ≤ int32 x := Int.le_bmod (by norm_num)
  have hhigh : int32 x < ((2 ^ 32 : ℕ) + 1) / 2 := Int.bmod_lt (by norm_num)
  norm_num at hlow hhigh
  omega

theorem int32_add (x y : ℤ) : int32 (int32 x + y) = int32 (x + y) := Int.bmod_add_bmod

/-- Two counts that differ by less than the modulus do not wrap to the same `int`. -/
theorem int32_ne {x y : ℤ} (hlt : x < y) (hdiff : y < x + 2 ^ 32) : int32 x ≠ int32 y := by
  intro heq
  have hdvd : ((2 ^ 32 : ℕ) : ℤ) ∣ y - x := by
    rw [Int.dvd_iff_bmod_eq_zero, ← Int.bmod_eq_bmod_iff_bmod_sub_eq_zero]
    exact heq.symm
  have hle := Int.le_of_dvd (by omega) hdvd
  norm_num at hle
  omega

end Words

section Digits
variable {radix : ℕ}

/-- The digits of a value, most significant first. -/
def numeral (radix : ℕ) (digits : List U8) (val : ℕ) : List U8 :=
  if val = 0 then [chr '0'] else (Nat.digits radix val).reverse.map (digits.getD · 0)

theorem pushDigits_eq (hradix : 1 < radix) (digits : List U8) {room val : ℕ}
    (hval : val < radix ^ room) : pushDigits radix digits room val =
      .ok ((Nat.digits radix val).map (digits.getD · 0)) := by
  induction room generalizing val with
  | zero =>
      obtain rfl : val = 0 := by simpa using hval
      rw [pushDigits, if_pos rfl, Nat.digits_zero]
      rfl
  | succ room ih =>
      rw [pushDigits]
      by_cases hzero : val = 0
      · rw [if_pos hzero, hzero, Nat.digits_zero]
        rfl
      · have hdiv : val / radix < radix ^ room := by
          rw [Nat.div_lt_iff_lt_mul (by omega)]
          rwa [pow_succ] at hval
        rw [if_neg hzero, Nat.digits_def' hradix (Nat.pos_of_ne_zero hzero), ih hdiv]
        rfl

theorem cvt_eq (hradix : 1 < radix) (digits : List U8) {val : ℕ} (hval : val < 2 ^ 64) :
    cvt val radix digits = .ok (numeral radix digits val) := by
  rw [cvt, numeral]
  split_ifs with hzero
  · rfl
  · have hroom : val < radix ^ 64 := lt_of_lt_of_le hval (Nat.pow_le_pow_left hradix 64)
    rw [pushDigits_eq hradix digits hroom, Except.map, List.map_reverse]

theorem numeral_ne_nil (digits : List U8) (val : ℕ) : numeral radix digits val ≠ [] := by
  rw [numeral]
  split_ifs with hzero
  · exact List.cons_ne_nil _ _
  · simpa using Nat.digits_ne_nil_iff_ne_zero.mpr hzero

/-- The buffer has room for the digits of every value and their terminator. -/
theorem length_numeral (hradix : 10 ≤ radix) (digits : List U8) {val : ℕ} (hval : val < 2 ^ 64) :
    (numeral radix digits val).length ≤ 20 := by
  rw [numeral]
  split_ifs with hzero
  · decide
  · rw [List.length_map, List.length_reverse, Nat.digits_length_le_iff (by omega)]
    calc val < 2 ^ 64 := hval
      _ ≤ 10 ^ 20 := by norm_num
      _ ≤ radix ^ 20 := Nat.pow_le_pow_left hradix 20

end Digits

section Cells

theorem store_eq (cs : List U8) (front back : Cells) (hlen : cs.length ≤ back.length) :
    store (front ++ back) front.length cs =
      .ok (front ++ cs.map some ++ back.drop cs.length) := by
  induction cs generalizing front back with
  | nil => simp [store]
  | cons c cs ih =>
      cases back with
      | nil => simp at hlen
      | cons b back =>
          have hset : (front ++ b :: back).set front.length (some c) =
              (front ++ [some c]) ++ back := by simp
          rw [store, if_pos (by simp), hset]
          have hih := ih (front ++ [some c]) back (by simpa using hlen)
          rw [List.length_append, List.length_singleton] at hih
          rw [hih]
          simp

theorem store_front {cs : List U8} {buf : Cells} (hlen : cs.length ≤ buf.length) :
    store buf 0 cs = .ok (cs.map some ++ buf.drop cs.length) :=
  store_eq cs [] buf hlen

theorem readChars_eq (cs : List U8) (cp : Cells) :
    readChars cs.length (cs.map some ++ cp) = .ok (cs, cp) := by
  induction cs with
  | nil => cases cp <;> rfl
  | cons c cs ih =>
      rw [List.length_cons, List.map_cons, List.cons_append, readChars, ih]
      rfl

theorem readChars_zero (cp : Cells) : readChars 0 cp = .ok ([], cp) := by
  cases cp <;> rfl

end Cells

section Cases
variable {spec : Spec} {st : State} {negative : Bool}

theorem finish_eq {text : List U8} {cp : Cells}
    (hread : readChars st.length.toNat st.cp = .ok (text, cp)) :
    finish spec negative st =
      .ok { st.put (layout spec negative st.length text)
              (layout spec negative st.length text).length with
            cp := cp, length := int32 (min st.length 0 - 1) } := by
  rw [finish, hread]
  rfl

/-- The shared part when no characters are left to emit. -/
theorem finish_of_nonpos (hlength : st.length ≤ 0) :
    finish spec negative st =
      .ok { st.put (layout spec negative st.length [])
              (layout spec negative st.length []).length with
            length := int32 (st.length - 1) } := by
  have hread : readChars st.length.toNat st.cp = .ok ([], st.cp) := by
    rw [Int.toNat_of_nonpos hlength]
    exact readChars_zero st.cp
  rw [finish_eq hread, min_eq_left hlength]
  rfl

/-- The digits of the magnitude. -/
def Number.text (n : Number) : List U8 := numeral n.radix n.digits n.val.toNat

theorem Number.length_text {n : Number} (hradix : 10 ≤ n.radix) : n.text.length ≤ 20 :=
  length_numeral hradix n.digits n.val.isLt

/-- The characters of a number conversion. -/
def numberText (spec : Spec) (n : Number) : List U8 :=
  layout spec n.negative n.text.length n.text

/-- The buffer after a number conversion. -/
def numberBuf (n : Number) (buf : Cells) : Cells :=
  (n.text ++ [0]).map some ++ buf.drop (n.text.length + 1)

theorem putNumber_eq {n : Number} (hradix : 10 ≤ n.radix) (hbuf : st.buf.length = 64) :
    putNumber spec n st =
      .ok { st.put (numberText spec n) (numberText spec n).length with
            buf := numberBuf n st.buf
            cp := (numberBuf n st.buf).drop n.text.length
            length := -1 } := by
  have hcvt : cvt n.val.toNat n.radix n.digits = .ok n.text :=
    cvt_eq (by omega) n.digits n.val.isLt
  have hstore : store st.buf 0 (n.text ++ [0]) = .ok (numberBuf n st.buf) := by
    have hlen := Number.length_text hradix
    rw [store_front (by simp only [List.length_append, List.length_singleton]; omega)]
    simp [numberBuf]
  have hread : readChars n.text.length (numberBuf n st.buf) =
      .ok (n.text, (numberBuf n st.buf).drop n.text.length) := by
    have hsplit : numberBuf n st.buf =
        n.text.map some ++ (numberBuf n st.buf).drop n.text.length := by
      simp [numberBuf]
    conv_lhs => rw [hsplit]
    exact readChars_eq _ _
  rw [putNumber, hcvt]
  simp only [bind, Except.bind, hstore]
  rw [finish_eq (by simpa using hread)]
  have hminus : int32 (min (n.text.length : ℤ) 0 - 1) = -1 := by
    rw [min_eq_right (by omega)]
    decide
  simp only [hminus]
  rfl

theorem length_numberBuf {n : Number} (hradix : 10 ≤ n.radix) {buf : Cells}
    (hbuf : buf.length = 64) : (numberBuf n buf).length = 64 := by
  have hlen := Number.length_text hradix
  simp only [numberBuf, List.length_append, List.length_map, List.length_singleton,
    List.length_drop]
  omega

theorem number_radix (spec : Spec) (arg : Arg) (conv : Conv) :
    10 ≤ (number spec arg conv).radix := by
  cases conv <;> simp [number]

/-- The length of a string conversion. -/
def stringLength (spec : Spec) (arg : Arg) : ℤ :=
  if spec.rightPrec = 0 then (argText arg).length else min spec.rightPrec (argText arg).length

/-- The characters of a string conversion. -/
def stringText (spec : Spec) (arg : Arg) : List U8 :=
  layout { spec with rightPrec := 0 } false (stringLength spec arg)
    ((argText arg).take (stringLength spec arg).toNat)

theorem stringLength_le (spec : Spec) (arg : Arg) :
    stringLength spec arg ≤ (argText arg).length := by
  rw [stringLength]
  split_ifs
  · exact le_rfl
  · exact min_le_right _ _

theorem putString_eq (arg : Arg) :
    finish { spec with rightPrec := 0 } false
        { st with cp := (argText arg ++ [0]).map some, length := stringLength spec arg } =
      .ok { st.put (stringText spec arg) (stringText spec arg).length with
            cp := ((argText arg).drop (stringLength spec arg).toNat ++ [0]).map some
            length := int32 (min (stringLength spec arg) 0 - 1) } := by
  have hle := stringLength_le spec arg
  have hread : readChars (stringLength spec arg).toNat ((argText arg ++ [0]).map some) =
      .ok ((argText arg).take (stringLength spec arg).toNat,
        ((argText arg).drop (stringLength spec arg).toNat ++ [0]).map some) := by
    have hsplit : (argText arg ++ [0]).map some =
        ((argText arg).take (stringLength spec arg).toNat).map some ++
          ((argText arg).drop (stringLength spec arg).toNat ++ [0]).map some := by
      rw [← List.map_append, ← List.append_assoc, List.take_append_drop]
    have hlen : ((argText arg).take (stringLength spec arg).toNat).length =
        (stringLength spec arg).toNat := by
      rw [List.length_take]
      omega
    have htake := readChars_eq ((argText arg).take (stringLength spec arg).toNat)
      (((argText arg).drop (stringLength spec arg).toNat ++ [0]).map some)
    rw [hsplit, ← htake, hlen]
  exact finish_eq hread

end Cases
end EspAmp.Printf
