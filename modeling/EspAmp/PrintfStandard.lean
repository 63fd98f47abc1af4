import EspAmp.PrintfCompose

/-!
# A single conversion against the C standard

The text that the standard prescribes is stated on numbers: the value of the argument in
its type, its digits, the precision as a least number of digits, and a field that is
padded on one side. The formatter reaches the same text through wrapping differences of
width, precision and length, some of them negative.
-/
namespace EspAmp.Printf
open ByteMemory

section Standard

/-- The decimal number that some digits denote. -/
def decimalValue (ds : List (Fin 10)) : ℕ := ds.foldl (fun v d => v * 10 + d.val) 0

/-- At least `precision` digits. -/
def leadingZeros (precision : ℕ) (digits : List U8) : List U8 :=
  List.replicate (precision - digits.length) (chr '0') ++ digits

theorem leadingZeros_zero (digits : List U8) : leadingZeros 0 digits = digits := by
  rw [leadingZeros, Nat.zero_sub]
  rfl

/-- A field of at least `width` characters. The `-` flag overrides the `0` flag. -/
def field (minus zero : Bool) (width : ℕ) (sign text : List U8) : List U8 :=
  let missing := width - (sign ++ text).length
  if minus then sign ++ text ++ List.replicate missing (chr ' ')
  else if zero then sign ++ List.replicate missing (chr '0') ++ text
  else List.replicate missing (chr ' ') ++ sign ++ text

namespace Directive
variable (d : Directive)

/-- The argument as `int`, `long` or `long long`. -/
def signedValue (arg : Arg) : ℤ :=
  match d.modifier with
  | .none => arg.int.toInt
  | .long => arg.long.toInt
  | .longLong => arg.longLong.toInt

def unsignedValue (arg : Arg) : ℕ :=
  match d.modifier with
  | .none => arg.int.toNat
  | .long => arg.long.toNat
  | .longLong => arg.longLong.toNat

/-- The precision of an integer conversion is one unless it is given. A given precision
overrides the `0` flag. -/
def integerText (value : ℤ) (radix : ℕ) (digits : List U8) : List U8 :=
  field d.minus (d.zero && d.precision.isNone) (decimalValue d.width)
    (if value < 0 then ascii "-" else [])
    (leadingZeros (d.precision.elim 1 decimalValue) (numeral radix digits value.natAbs))

/-- A given precision cuts a string conversion. -/
def stringField (s : CString) : List U8 :=
  field d.minus false (decimalValue d.width) []
    (d.precision.elim s.bytes fun ds => s.bytes.take (decimalValue ds))

/-- The text of a conversion where the standard prescribes it. -/
def standardText (arg : Arg) : Option (List U8) :=
  match d.letter with
  | .d => some (d.integerText (d.signedValue arg) 10 decimalDigits)
  | .u => some (d.integerText (d.unsignedValue arg) 10 decimalDigits)
  | .x => some (d.integerText (d.unsignedValue arg) 16 lowerDigits)
  | .X => some (d.integerText (d.unsignedValue arg) 16 upperDigits)
  | .s => arg.string.map d.stringField
  | .c => some [arg.int.setWidth 8]
  | .p => none

/-- Widths and precisions that are no more than `int` can hold after any subtraction, and
only the flags and modifiers that a conversion has. -/
def Covered : Prop :=
  decimalValue d.width < 2 ^ 30 ∧
    (∀ ds ∈ d.precision, 1 ≤ decimalValue ds ∧ decimalValue ds < 2 ^ 30) ∧
    match d.letter with
    | .d | .u | .x | .X => True
    | .s => d.zero = false ∧ d.modifier = .none
    | .c => d.minus = false ∧ d.zero = false ∧ d.width = [] ∧ d.precision = none ∧
        d.modifier = .none
    | .p => False

end Directive
end Standard

section Scanned

theorem le_foldl_decimal (ds : List (Fin 10)) (v : ℕ) :
    v ≤ ds.foldl (fun v d => v * 10 + d.val) v := by
  induction ds generalizing v with
  | nil => exact le_rfl
  | cons d ds ih => exact le_trans (by omega) (ih (v * 10 + d.val))

theorem scannedFrom_eq (ds : List (Fin 10)) (v : ℕ)
    (hv : ds.foldl (fun v d => v * 10 + d.val) v < 2 ^ 31) :
    scannedFrom v ds = (ds.foldl (fun v d => v * 10 + d.val) v : ℕ) := by
  induction ds generalizing v with
  | nil => rfl
  | cons d ds ih =>
      have hhead := le_foldl_decimal ds (v * 10 + d.val)
      have hnext : int32 ((v : ℤ) * 10 + d.val) = ((v * 10 + d.val : ℕ) : ℤ) := by
        rw [List.foldl_cons] at hv
        push_cast
        exact int32_of_range (by omega) (by omega)
      rw [List.foldl_cons] at hv ⊢
      rw [scannedFrom, List.foldl_cons, hnext]
      exact ih _ hv

theorem scannedValue_eq {ds : List (Fin 10)} (hds : decimalValue ds < 2 ^ 30) :
    scannedValue ds = decimalValue ds :=
  scannedFrom_eq ds 0 (lt_trans hds (by norm_num))

end Scanned

section Layout
variable {spec : Spec} {negative : Bool} {text : List U8}

/-- The ranges in which no difference of the shared part wraps. -/
structure Spec.Fits (spec : Spec) (length : ℕ) : Prop where
  left_nonneg : 0 ≤ spec.leftPrec
  left_lt : spec.leftPrec < 2 ^ 30
  right_nonneg : 0 ≤ spec.rightPrec
  right_lt : spec.rightPrec < 2 ^ 30
  length_lt : length + 1 < 2 ^ 31

theorem Spec.Fits.no_precision {length : ℕ} (h : spec.Fits length) :
    Spec.Fits { spec with rightPrec := 0 } length :=
  ⟨h.left_nonneg, h.left_lt, le_rfl, by norm_num, h.length_lt⟩

theorem zeros_eq (h : spec.Fits text.length) :
    fill (int32 (spec.rightPrec - text.length)) (chr '0') ++ text =
      leadingZeros spec.rightPrec.toNat text := by
  obtain ⟨-, -, hright, hlt, hlen⟩ := h
  rw [int32_of_range (by omega) (by omega), fill, leadingZeros]
  congr 2
  omega

theorem padding_eq (h : spec.Fits text.length) :
    (padding spec negative text.length).toNat =
      spec.leftPrec.toNat - ((if negative then ascii "-" else []) ++
        leadingZeros spec.rightPrec.toNat text).length := by
  obtain ⟨hleft, hleft', hright, hright', hlen⟩ := h
  have hsign : (if negative then ascii "-" else []).length = (if negative then 1 else 0) := by
    cases negative <;> rfl
  rw [List.length_append, hsign, leadingZeros, List.length_append, List.length_replicate]
  have hpad : int32 (spec.leftPrec - text.length) = spec.leftPrec - text.length :=
    int32_of_range (by omega) (by omega)
  have hzeros : int32 (spec.rightPrec - text.length) = spec.rightPrec - text.length :=
    int32_of_range (by omega) (by omega)
  have hdiff : int32 (spec.leftPrec - text.length - (spec.rightPrec - text.length)) =
      spec.leftPrec - spec.rightPrec := by
    rw [sub_sub_sub_cancel_right]
    exact int32_of_range (by omega) (by omega)
  rw [padding]
  simp only [hpad, hzeros, hdiff]
  cases negative with
  | false =>
      simp only [Bool.false_eq_true, if_false]
      split_ifs <;> omega
  | true =>
      simp only [if_true]
      rw [int32_of_range (by split_ifs <;> omega) (by split_ifs <;> omega)]
      split_ifs <;> omega

/-- The shared part prints a field. -/
theorem layout_eq_field (h : spec.Fits text.length) :
    layout spec negative text.length text =
      field spec.padOnRight spec.zeroFill spec.leftPrec.toNat
        (if negative then ascii "-" else []) (leadingZeros spec.rightPrec.toNat text) := by
  have hzeros (tail : List U8) : fill (int32 (spec.rightPrec - text.length)) (chr '0') ++
      (text ++ tail) = leadingZeros spec.rightPrec.toNat text ++ tail := by
    rw [← List.append_assoc, zeros_eq h]
  have hpad (c : U8) : fill (padding spec negative text.length) c =
      List.replicate (spec.leftPrec.toNat - ((if negative then ascii "-" else []) ++
        leadingZeros spec.rightPrec.toNat text).length) c := by
    rw [fill, padding_eq h]
  have hsign : (if negative then [chr '-'] else []) = if negative then ascii "-" else [] := rfl
  rw [layout, field]
  simp only [List.append_assoc, hzeros, hpad, hsign]
  cases spec.padOnRight <;> cases spec.zeroFill <;> simp

end Layout

section Arguments

theorem toInt_fetch (d : Directive) (arg : Arg) :
    (fetch d.spec arg).toInt = d.signedValue arg := by
  rw [fetch, Directive.signedValue, Directive.spec]
  cases d.modifier with
  | none => exact BitVec.toInt_signExtend_of_le (by norm_num)
  | long => exact BitVec.toInt_signExtend_of_le (by norm_num)
  | longLong => rfl

/-- The negation of the smallest value is its magnitude. -/
theorem signed_eq (val : U64) :
    (signed val).1 = decide (val.toInt < 0) ∧ (signed val).2.toNat = val.toInt.natAbs := by
  have hslt : val.slt 0 = decide (val.toInt < 0) := BitVec.slt_eq_decide
  have hneg := BitVec.toNat_neg val
  have hcond := BitVec.toInt_eq_toNat_cond val
  have hval := val.isLt
  rw [signed, hslt]
  split_ifs with hsign
  · rw [decide_eq_true_eq] at hsign
    refine ⟨(decide_eq_true hsign).symm, ?_⟩
    change (-val).toNat = _
    split_ifs at hcond <;> omega
  · rw [decide_eq_true_eq] at hsign
    refine ⟨(decide_eq_false hsign).symm, ?_⟩
    change val.toNat = _
    split_ifs at hcond <;> omega

theorem toNat_mask (x : U32) : (x.signExtend 64 &&& 0xffffffff#64).toNat = x.toNat := by
  have hlow : (x.signExtend 64).toNat % 2 ^ 32 = x.toNat := by
    have hx := x.isLt
    rw [BitVec.toNat_signExtend, BitVec.toNat_setWidth]
    split_ifs <;> omega
  rw [BitVec.toNat_and, show (0xffffffff#64).toNat = 2 ^ 32 - 1 from rfl,
    Nat.and_two_pow_sub_one_eq_mod, hlow]

theorem toNat_masked (d : Directive) (arg : Arg) :
    (masked d.spec (fetch d.spec arg)).toNat = d.unsignedValue arg := by
  rw [masked, fetch, Directive.unsignedValue, Directive.spec]
  cases d.modifier with
  | none => exact toNat_mask arg.int
  | long => exact toNat_mask arg.long
  | longLong => rfl

end Arguments

namespace Directive
variable {d : Directive} {arg : Arg}

theorem Covered.leftPrec (hd : d.Covered) : d.spec.leftPrec = decimalValue d.width :=
  scannedValue_eq hd.1

theorem Covered.rightPrec_none (hprec : d.precision = none) : d.spec.rightPrec = 0 := by
  rw [spec, hprec]
  rfl

theorem Covered.rightPrec_some (hd : d.Covered) {ds : List (Fin 10)}
    (hprec : d.precision = some ds) : d.spec.rightPrec = decimalValue ds := by
  rw [spec, hprec]
  exact scannedValue_eq (hd.2.1 ds hprec).2

theorem Covered.fits (hd : d.Covered) {length : ℕ} (hlen : length + 1 < 2 ^ 31) :
    d.spec.Fits length := by
  have hleft := hd.leftPrec
  have hwidth := hd.1
  have hright : 0 ≤ d.spec.rightPrec ∧ d.spec.rightPrec < 2 ^ 30 := by
    cases hprec : d.precision with
    | none =>
        rw [Covered.rightPrec_none hprec]
        decide
    | some ds =>
        have hds := hd.2.1 ds hprec
        rw [hd.rightPrec_some hprec]
        omega
  exact ⟨by omega, by omega, hright.1, hright.2, hlen⟩

theorem leadingZeros_spec (hd : d.Covered) {digits : List U8} (hdigits : digits ≠ []) :
    leadingZeros d.spec.rightPrec.toNat digits =
      leadingZeros (d.precision.elim 1 decimalValue) digits := by
  have hpos := List.length_pos_iff.mpr hdigits
  rw [leadingZeros, leadingZeros]
  congr 2
  cases hprec : d.precision with
  | none =>
      rw [Covered.rightPrec_none hprec, Option.elim_none]
      omega
  | some ds => rw [hd.rightPrec_some hprec, Option.elim_some, Int.toNat_natCast]

theorem numberText_eq (hd : d.Covered) {n : Number} {value : ℤ} (hradix : 10 ≤ n.radix)
    (hnegative : n.negative = decide (value < 0)) (hval : n.val.toNat = value.natAbs) :
    numberText d.spec n = d.integerText value n.radix n.digits := by
  have hlen := Number.length_text hradix
  rw [numberText, layout_eq_field (hd.fits (by omega)), Number.text,
    leadingZeros_spec hd (numeral_ne_nil _ _), hd.leftPrec, hval, hnegative, integerText]
  simp only [decide_eq_true_eq]
  rfl

/-- The string conversion leaves no precision to the shared part. -/
theorem stringText_eq (hd : d.Covered) {s : CString} (harg : arg.string = some s) :
    stringText d.spec arg = field d.minus d.spec.zeroFill (decimalValue d.width) []
      (d.precision.elim s.bytes fun ds => s.bytes.take (decimalValue ds)) := by
  have htext : argText arg = s.bytes := by rw [argText, harg]
  have htake : (argText arg).take (stringLength d.spec arg).toNat =
      d.precision.elim s.bytes fun ds => s.bytes.take (decimalValue ds) := by
    rw [stringLength, htext]
    cases hprec : d.precision with
    | none =>
        rw [Covered.rightPrec_none hprec, if_pos rfl, Int.toNat_natCast, List.take_length]
        rfl
    | some ds =>
        have hds := hd.2.1 ds hprec
        rw [hd.rightPrec_some hprec, if_neg (by omega), ← Nat.cast_min, Int.toNat_natCast,
          ← List.take_take, List.take_length]
        rfl
  have hlen : stringLength d.spec arg =
      ((argText arg).take (stringLength d.spec arg).toNat).length := by
    have hle := stringLength_le d.spec arg
    have hnonneg : 0 ≤ stringLength d.spec arg := by
      have hright := (hd.fits (Nat.one_lt_two_pow (by norm_num : 31 ≠ 0))).right_nonneg
      rw [stringLength]
      split_ifs <;> omega
    rw [List.length_take, min_eq_left (by omega), Int.toNat_of_nonneg hnonneg]
  have hsize : ((argText arg).take (stringLength d.spec arg).toNat).length + 1 < 2 ^ 31 := by
    have hs := s.size
    rw [← htext] at hs
    rw [List.length_take]
    omega
  rw [htake] at hlen hsize
  have hfits := hd.fits hsize
  rw [stringText, htake, hlen, layout_eq_field hfits.no_precision, hd.leftPrec,
    Int.toNat_natCast, Int.toNat_zero, leadingZeros_zero]
  rfl

theorem Covered.letter_ne (hd : d.Covered) : d.letter ≠ .p := by
  intro h
  obtain ⟨-, -, hletter⟩ := hd
  rw [h] at hletter
  exact hletter

/-- The standard prescribes a text for these conversions. -/
theorem Covered.standardText_isSome (hd : d.Covered)
    (harg : d.letter = .s → arg.string ≠ none) : ∃ text, d.standardText arg = some text := by
  rw [standardText]
  cases h : d.letter with
  | p => exact absurd h hd.letter_ne
  | s =>
      obtain ⟨s, hs⟩ := Option.ne_none_iff_exists'.mp (harg h)
      exact ⟨d.stringField s, by rw [hs, Option.map_some]⟩
  | _ => exact ⟨_, rfl⟩

/-- The formatter emits the text of the standard. -/
theorem emitted_eq (hd : d.Covered) {text : List U8} (htext : d.standardText arg = some text) :
    d.letter.emitted d.spec arg = text := by
  have hsigned := signed_eq (fetch d.spec arg)
  rw [toInt_fetch] at hsigned
  have hunsigned : (masked d.spec (fetch d.spec arg)).toNat = (d.unsignedValue arg : ℤ).natAbs :=
    toNat_masked d arg
  have hpositive : false = decide ((d.unsignedValue arg : ℤ) < 0) :=
    (decide_eq_false (by omega)).symm
  obtain ⟨-, -, hletter⟩ := id hd
  rw [standardText] at htext
  cases h : d.letter with
  | d =>
      rw [h] at htext
      rw [← Option.some.inj htext]
      exact numberText_eq hd (number_radix d.spec arg .signed) hsigned.1 hsigned.2
  | u =>
      rw [h] at htext
      rw [← Option.some.inj htext]
      exact numberText_eq hd (number_radix d.spec arg .unsigned) hpositive hunsigned
  | x =>
      rw [h] at htext
      rw [← Option.some.inj htext]
      exact numberText_eq hd (number_radix d.spec arg .hexLower) hpositive hunsigned
  | X =>
      rw [h] at htext
      rw [← Option.some.inj htext]
      exact numberText_eq hd (number_radix d.spec arg .hexUpper) hpositive hunsigned
  | p => exact absurd h hd.letter_ne
  | s =>
      rw [h] at htext hletter
      obtain ⟨s, harg, rfl⟩ := Option.map_eq_some_iff.mp htext
      have hzero : d.spec.zeroFill = false := by rw [spec, hletter.1, Bool.false_and]
      rw [Letter.emitted, stringText_eq hd harg, hzero, stringField]
  | c =>
      rw [h] at htext
      exact Option.some.inj htext

end Directive

section Tables

/-- The radices and digits that `_cvt` is called with. -/
def digitTables : List (ℕ × List U8) :=
  [(10, decimalDigits), (16, lowerDigits), (16, upperDigits)]

theorem digitTables_getD : ∀ table ∈ digitTables, 10 ≤ table.1 ∧ table.2.getD 0 0 = chr '0' ∧
    ∀ i < table.1, table.2.getD i 0 ∈ table.2 ∧ table.2.idxOf (table.2.getD i 0) = i := by
  decide

theorem numeral_mem {table : ℕ × List U8} (htable : table ∈ digitTables) (val : ℕ) :
    ∀ c ∈ numeral table.1 table.2 val, c ∈ table.2 := by
  obtain ⟨hradix, hzero, hdigit⟩ := digitTables_getD table htable
  intro c hc
  rw [numeral] at hc
  split_ifs at hc
  · rw [List.mem_singleton.mp hc, ← hzero]
    exact (hdigit 0 (by omega)).1
  · obtain ⟨i, hi, rfl⟩ := List.mem_map.mp hc
    exact (hdigit i (Nat.digits_lt_base (by omega) (List.mem_reverse.mp hi))).1

/-- The digits denote the value. -/
theorem ofDigits_numeral {table : ℕ × List U8} (htable : table ∈ digitTables) (val : ℕ) :
    Nat.ofDigits table.1 ((numeral table.1 table.2 val).reverse.map table.2.idxOf) = val := by
  obtain ⟨hradix, hzero, hdigit⟩ := digitTables_getD table htable
  rw [numeral]
  split_ifs with hval
  · have hidx : table.2.idxOf (chr '0') = 0 := by
      rw [← hzero]
      exact (hdigit 0 (by omega)).2
    rw [List.reverse_singleton, List.map_singleton, hidx, hval]
    exact Nat.ofDigits_singleton
  · have hmap : ((Nat.digits table.1 val).map (table.2.getD · 0)).map table.2.idxOf =
        Nat.digits table.1 val := by
      rw [List.map_map]
      refine (List.map_congr_left fun i hi => ?_).trans (List.map_id _)
      exact (hdigit i (Nat.digits_lt_base (by omega) hi)).2
    simp only [List.map_reverse, List.reverse_reverse, hmap]
    exact Nat.ofDigits_digits table.1 val

end Tables

/-- A format of one directive prints what C prints, and the digits of `_cvt` denote the
value and fit the buffer with their terminator. -/
theorem single_conversion_prints_standard_text (f : Format) (rest : ℕ → Arg) (d : Directive)
    (arg : Arg) (hf : f.pieces = [.directive d arg]) (hd : d.Covered)
    (harg : d.letter = .s → arg.string ≠ none) :
    (∃ text, d.standardText arg = some text ∧ f.print rest = .ok (int32 text.length, text)) ∧
      ∀ val : U64, ∀ table ∈ digitTables, ∃ cs,
        cvt val.toNat table.1 table.2 = .ok cs ∧ (∀ c ∈ cs, c ∈ table.2) ∧
        Nat.ofDigits table.1 (cs.reverse.map table.2.idxOf) = val.toNat ∧ cs.length + 1 ≤ 64 := by
  constructor
  · obtain ⟨text, htext⟩ := hd.standardText_isSome harg
    have hpercent : Piece.percent ∉ f.pieces := by
      rw [hf]
      simp
    have hmissed : f.missed = 0 := by
      rw [Format.missed, hf, List.map_singleton, List.sum_singleton]
      exact if_neg hd.letter_ne
    refine ⟨text, htext, ?_⟩
    rw [f.print_of_no_percent rest hpercent, hmissed, hf, List.flatMap_singleton, Piece.emitted,
      Directive.emitted_eq hd htext, Nat.cast_zero, sub_zero]
  · intro val table htable
    have hradix := (digitTables_getD table htable).1
    refine ⟨_, cvt_eq (by omega) table.2 val.isLt, numeral_mem htable _,
      ofDigits_numeral htable _, ?_⟩
    have hlen := length_numeral hradix table.2 val.isLt
    omega

theorem zeroFilled_width_head : [(⟨8, by decide⟩ : Fin 10)].head? ≠ some 0 := by decide

/-- The directive `%08lld`. -/
def zeroFilled : Directive where
  minus := false
  zero := true
  width := [⟨8, by decide⟩]
  width_head := zeroFilled_width_head
  precision := none
  modifier := .longLong
  letter := .d

def minusFive : Arg := ⟨0, 0, -5, none⟩

/-- Zeros stand behind the sign. -/
theorem zero_filled_number_is_printed :
    zeroFilled.standardText minusFive = some (ascii "-0000005") ∧
      (Format.mk [.directive zeroFilled minusFive] (by decide)).print (fun _ => minusFive) =
        .ok (8, ascii "-0000005") := by
  have hcovered : zeroFilled.Covered := ⟨by decide, by simp [zeroFilled], trivial⟩
  obtain ⟨⟨text, htext, hprint⟩, -⟩ := single_conversion_prints_standard_text
    (Format.mk [.directive zeroFilled minusFive] (by decide)) (fun _ => minusFive) zeroFilled
    minusFive rfl hcovered (by decide)
  have hnumber : zeroFilled.standardText minusFive = some (ascii "-0000005") := by
    rfl
  have hcount : int32 (ascii "-0000005").length = 8 := by decide
  rw [Option.some.inj (htext.symm.trans hnumber), hcount] at hprint
  exact ⟨hnumber, hprint⟩

end EspAmp.Printf
