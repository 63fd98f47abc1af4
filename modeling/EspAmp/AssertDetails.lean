import EspAmp.PanicReport
import EspAmp.PrintfStandard

/-!
# The details of an abort

`__assert_func` writes the line number backwards, turns it round in place and copies nine
strings to the dump, until 247 bytes are filled. Here the line and the strings come out as
one text, which the field holds up to its end and a terminator. The panic that follows
leaves the details alone, so that the report begins with them. The same holds of the
address that `esp_amp_subcore_abort` and silent assertions leave.
-/
namespace EspAmp.Panic
open ByteMemory Printf

section Reverse
variable {str : List U8} {pos : ℕ}

theorem getElem?_swap {i j : ℕ} (hi : i < str.length) (hj : j < str.length) (k : ℕ) :
    (swap str i j)[k]? = if k = j then str[i]? else if k = i then str[j]? else str[k]? := by
  unfold swap
  rw [List.getElem?_set, List.getElem?_set, List.length_set]
  simp only [List.getD_eq_getElem _ _ hi, List.getD_eq_getElem _ _ hj,
    List.getElem?_eq_getElem hi, List.getElem?_eq_getElem hj, hi, hj, if_true, eq_comm (a := k)]

/-- The first exchanges of the loop that turns the digits round. -/
def swaps (pos n : ℕ) (str : List U8) : List U8 :=
  (List.range n).foldl (fun str i => swap str i (pos - 1 - i)) str

theorem swaps_succ (n : ℕ) : swaps pos (n + 1) str = swap (swaps pos n str) n (pos - 1 - n) := by
  unfold swaps
  rw [List.range_succ, List.foldl_append, List.foldl_cons, List.foldl_nil]

theorem length_swaps (n : ℕ) : (swaps pos n str).length = str.length := by
  induction n with
  | zero => rfl
  | succ n ih => rw [swaps_succ, swap, List.length_set, List.length_set, ih]

/-- The ends of the digits are exchanged, the ones between them are still in their places. -/
theorem getElem?_swaps (hpos : pos ≤ str.length) {n : ℕ} (hn : n ≤ pos / 2) (k : ℕ) :
    (swaps pos n str)[k]? =
      if k < n ∨ pos - n ≤ k ∧ k < pos then str[pos - 1 - k]? else str[k]? := by
  induction n generalizing k with
  | zero => rw [swaps, List.range_zero, List.foldl_nil, if_neg (by omega)]
  | succ n ih =>
      have hn' : n ≤ pos / 2 := by omega
      have hleft : (swaps pos n str)[n]? = str[n]? := by rw [ih hn', if_neg (by omega)]
      have hright : (swaps pos n str)[pos - 1 - n]? = str[pos - 1 - n]? := by
        rw [ih hn', if_neg (by omega)]
      rw [swaps_succ, getElem?_swap (by rw [length_swaps]; omega) (by rw [length_swaps]; omega),
        hleft, hright, ih hn']
      by_cases hkj : k = pos - 1 - n
      · rw [if_pos hkj, if_pos (by omega), show pos - 1 - k = n by omega]
      · by_cases hki : k = n
        · rw [if_neg hkj, if_pos hki, if_pos (by omega), hki]
        · rw [if_neg hkj, if_neg hki]
          congr 1
          exact propext (by omega)

/-- Half as many exchanges as there are digits reverse them. -/
theorem swaps_reverse (ds rest : List U8) :
    swaps ds.length (ds.length / 2) (ds ++ rest) = ds.reverse ++ rest := by
  apply List.ext_getElem?
  intro k
  rw [getElem?_swaps (by rw [List.length_append]; omega) le_rfl]
  by_cases hk : k < ds.length
  · have hreverse : (ds.reverse ++ rest)[k]? = ds[ds.length - 1 - k]? := by
      rw [List.getElem?_append_left (by rwa [List.length_reverse]), List.getElem?_reverse hk]
    rw [hreverse]
    split_ifs with h
    · rw [List.getElem?_append_left (by omega)]
    · rw [List.getElem?_append_left hk, show ds.length - 1 - k = k by omega]
  · rw [if_neg (by omega), List.getElem?_append_right (by omega),
      List.getElem?_append_right (by rw [List.length_reverse]; omega), List.length_reverse]

end Reverse

section Itods
variable {str : List U8}

theorem foldl_set_zero {n : ℕ} (hn : n ≤ str.length) :
    (List.range n).foldl (fun str i => str.set i 0) str = List.replicate n 0 ++ str.drop n := by
  induction n with
  | zero => rfl
  | succ n ih =>
      rw [List.range_succ, List.foldl_append, ih (by omega), List.foldl_cons, List.foldl_nil,
        List.drop_eq_getElem_cons (by omega)]
      have hset := List.set_append_right (i := n) (s := List.replicate n (0 : U8))
        (t := str[n] :: str.drop (n + 1)) 0 (by rw [List.length_replicate])
      rw [hset, List.length_replicate, Nat.sub_self, List.set_cons_zero, List.replicate_succ',
        List.append_assoc, List.singleton_append]

theorem digit_char (value : ℕ) : chr '0' + BitVec.ofInt 8 ((value : ℤ).tmod 10) =
    decimalDigits.getD (value % 10) 0 := by
  have hdigit : ∀ d : ℕ, d < 10 → chr '0' + BitVec.ofInt 8 d = decimalDigits.getD d 0 := by decide
  exact hdigit (value % 10) (Nat.mod_lt value (by decide))

/-- The loop writes the digits behind those that it has written. -/
theorem itodsDigits_eq {room value : ℕ} (hvalue : value < 10 ^ room) (pre rest : List U8)
    (hrest : room ≤ rest.length) :
    itodsDigits room (pre ++ rest) value pre.length =
      (pre ++ (Nat.digits 10 value).map (decimalDigits.getD · 0) ++
          rest.drop (Nat.digits 10 value).length,
        pre.length + (Nat.digits 10 value).length) := by
  induction room generalizing value pre rest with
  | zero =>
      obtain rfl : value = 0 := by simpa using hvalue
      simp [itodsDigits]
  | succ room ih =>
      rw [itodsDigits]
      rcases Nat.eq_zero_or_pos value with rfl | hpos
      · simp
      · obtain ⟨c, rest, rfl⟩ := List.exists_cons_of_length_pos (show 0 < rest.length by omega)
        have hdiv : value / 10 < 10 ^ room := by
          rw [Nat.pow_succ] at hvalue
          omega
        have hstep := ih hdiv (pre ++ [decimalDigits.getD (value % 10) 0]) rest
          (Nat.le_of_succ_le_succ hrest)
        have hset : (pre ++ c :: rest).set pre.length (decimalDigits.getD (value % 10) 0) =
            pre ++ [decimalDigits.getD (value % 10) 0] ++ rest := by
          simp
        have hquot : (value : ℤ).tdiv 10 = ((value / 10 : ℕ) : ℤ) := rfl
        rw [if_pos (by omega), digit_char, hset, hquot, Nat.digits_def' (by decide) hpos]
        rw [List.length_append, List.length_singleton] at hstep
        rw [hstep, List.length_cons, List.drop_succ_cons, List.map_cons, Nat.add_right_comm]
        simp only [List.append_assoc, List.cons_append, List.nil_append, Nat.add_assoc]

/-- `itods` on a buffer with room for every digit and the terminator. -/
theorem itods_eq {maxLen value : ℕ} (hvalue : value < 10 ^ (maxLen - 1)) (hmax : 2 ≤ maxLen)
    (hstr : str.length = maxLen) :
    itods value str maxLen = numeral 10 decimalDigits value ++
      List.replicate (maxLen - (numeral 10 decimalDigits value).length) 0 := by
  have hzero : (List.range maxLen).foldl (fun str i => str.set i 0) str =
      List.replicate maxLen 0 := by
    rw [foldl_set_zero hstr.ge, List.drop_eq_nil_of_le hstr.le, List.append_nil]
  rw [itods, hzero, numeral]
  split_ifs with hv hv' hv'
  · obtain ⟨n, rfl⟩ := Nat.exists_eq_add_of_le' (show 1 ≤ maxLen by omega)
    rfl
  · omega
  · omega
  · have hdigits := itodsDigits_eq hvalue [] (List.replicate maxLen 0)
      (by rw [List.length_replicate]; omega)
    have hswaps := swaps_reverse ((Nat.digits 10 value).map (decimalDigits.getD · 0))
      (List.replicate (maxLen - (Nat.digits 10 value).length) 0)
    simp only [List.nil_append, List.length_nil, Nat.zero_add, List.drop_replicate] at hdigits
    rw [List.length_map] at hswaps
    rw [List.map_reverse, List.length_reverse, List.length_map, ← hswaps, hdigits]
    rfl

/-- Only zero is written with a zero in front. -/
theorem numeral_head {value : ℕ} (h : (numeral 10 decimalDigits value).head? = some (chr '0')) :
    value = 0 := by
  by_contra hvalue
  have hdigit : ∀ d < 10, decimalDigits.getD d 0 = chr '0' → d = 0 := by decide
  have hne : Nat.digits 10 value ≠ [] := Nat.digits_ne_nil_iff_ne_zero.mpr hvalue
  rw [numeral, if_neg hvalue, List.head?_map, List.head?_reverse, List.getLast?_eq_some_getLast hne,
    Option.map_some, Option.some_inj] at h
  have hlast := hdigit _ (Nat.digits_lt_base (by decide) (List.getLast_mem hne)) h
  exact Nat.getLast_digit_ne_zero 10 hvalue hlast

end Itods

section Details
variable {b : Build} {m : Memory 32} {x : U32}

/-- The strings are copied one behind the other, as far as there is room. -/
theorem copyDetails_eq (strs : List (List U8)) {off remLen : ℕ} (hroom : off + remLen ≤ 247) :
    copyDetails b strs off remLen m =
      (write m (b.field (detailsOffset + off)) (strs.flatten.take remLen),
        off + (strs.flatten.take remLen).length) := by
  induction strs generalizing off remLen m with
  | nil =>
      rw [copyDetails, List.flatten_nil, List.take_nil]
      rfl
  | cons s strs ih =>
      rw [copyDetails, List.flatten_cons, List.take_append]
      split_ifs with hfull
      · rw [min_eq_right (by omega), Nat.sub_eq_zero_of_le (show remLen ≤ s.length by omega),
          List.take_zero, List.append_nil, List.length_take, min_eq_left (by omega)]
      · have hlen : min s.length remLen = s.length := by omega
        have hlast : (s ++ strs.flatten.take (remLen - s.length)).length ≤ 2 ^ 32 := by
          rw [List.length_append, List.length_take]
          omega
        have hwhole : s.take remLen = s := List.take_of_length_le (by omega)
        rw [hlen, ih (by omega), List.take_length, hwhole, ← write_write_append _ _ hlast,
          field_add, List.length_append, Nat.add_assoc, Nat.add_assoc]

/-- The details and their terminator are one string, in front of which `is_abort` is set. -/
theorem storeDetails_eq (strs : List (List U8)) :
    storeDetails b strs m =
      write32 (write m (b.field detailsOffset) (strs.flatten.take 247 ++ [0]))
        (b.field isAbortOffset) 1 := by
  have hlast : (strs.flatten.take 247 ++ [(0 : U8)]).length ≤ 2 ^ 32 := by
    rw [List.length_append, List.length_take, List.length_singleton]
    omega
  unfold storeDetails
  rw [show abortDetailsLength - 1 = 247 from rfl, copyDetails_eq strs (by omega)]
  simp only [Nat.zero_add, Nat.add_zero]
  rw [← field_add, write_write_append _ _ hlast]

theorem length_details (strs : List (List U8)) :
    (strs.flatten.take 247 ++ [(0 : U8)]).length ≤ abortDetailsLength := by
  rw [List.length_append, List.length_take, List.length_singleton]
  exact Nat.succ_le_succ (min_le_left ..)

theorem read_storeDetails (strs : List (List U8)) :
    read (storeDetails b strs m) (b.field detailsOffset) ((strs.flatten.take 247).length + 1) =
      strs.flatten.take 247 ++ [0] := by
  have hlength := length_details strs
  have hfield : Apart (b.field detailsOffset) abortDetailsLength (b.field isAbortOffset) 4 :=
    (field_apart (by decide) (by decide)).symm
  rw [List.length_append, List.length_singleton] at hlength
  rw [storeDetails_eq]
  calc read _ _ _ = read (write m (b.field detailsOffset) (strs.flatten.take 247 ++ [0]))
        (b.field detailsOffset) (strs.flatten.take 247 ++ [(0 : U8)]).length := by
        rw [List.length_append, List.length_singleton]
        exact read_congr fun x hx => write32_of_not_within (hfield x (hx.mono hlength))
    _ = _ := read_write _ ((length_details strs).trans (by decide))

/-- Nothing but the field and `is_abort` is written. -/
theorem storeDetails_of_not_within (strs : List (List U8))
    (hdetails : ¬ Within (b.field detailsOffset) abortDetailsLength x)
    (habort : ¬ Within (b.field isAbortOffset) 4 x) : storeDetails b strs m x = m x := by
  rw [storeDetails_eq, write32_of_not_within habort, write_of_not_within]
  intro hx
  exact hdetails (hx.mono (length_details strs))

theorem isAbort_storeDetails (strs : List (List U8)) :
    word32 (storeDetails b strs m) (b.field isAbortOffset) = 1 := by
  rw [storeDetails_eq, word32_write32 (by decide)]

end Details

section Assert

/-- The decimal representation of a number, without leading zeros. -/
structure IsDecimal (text : List U8) (n : ℕ) : Prop where
  digits : ∀ c ∈ text, c ∈ decimalDigits
  value : Nat.ofDigits 10 (text.reverse.map decimalDigits.idxOf) = n
  nonempty : text ≠ []
  no_leading_zero : text.head? = some (chr '0') → text = [chr '0']

theorem isDecimal_numeral (n : ℕ) : IsDecimal (numeral 10 decimalDigits n) n where
  digits := numeral_mem (List.mem_cons_self ..) n
  value := ofDigits_numeral (List.mem_cons_self ..) n
  nonempty := numeral_ne_nil decimalDigits n
  no_leading_zero h := by rw [numeral, if_pos (numeral_head h)]

theorem IsDecimal.ne_zero {text : List U8} {n : ℕ} (h : IsDecimal text n) {c : U8}
    (hc : c ∈ text) : c ≠ 0 := by
  have hdigits : ∀ c ∈ decimalDigits, c ≠ 0 := by decide
  exact hdigits c (h.digits c hc)

theorem length_numeral_line {line : ℕ} (hline : line ≤ 99999) :
    (numeral 10 decimalDigits line).length ≤ 5 := by
  rw [numeral]
  split_ifs with hzero
  · exact Nat.le_add_left 1 4
  · rw [List.length_map, List.length_reverse]
    exact (Nat.digits_length_le_iff (by decide) line).mpr (by omega)

/-- The line as `lbuf` holds it. -/
theorem lbuf_eq {line : ℕ} (hline : line ≤ 99999) {lbuf : List U8} (hlbuf : lbuf.length = 6) :
    ((itods line lbuf 6).takeWhile (· ≠ 0)) = numeral 10 decimalDigits line := by
  have hlength := length_numeral_line hline
  rw [itods_eq (by omega) (by decide) hlbuf, List.takeWhile_append_of_pos]
  · obtain ⟨n, hn⟩ : ∃ n, 6 - (numeral 10 decimalDigits line).length = n + 1 :=
      Nat.exists_eq_add_of_le' (by omega)
    rw [hn, List.replicate_succ]
    simp
  · intro c hc
    simpa using (isDecimal_numeral line).ne_zero hc

/-- The text of an assertion failure. -/
def assertText (func : Option CString) (file : CString) (decimal : List U8) (expr : CString) :
    List U8 :=
  assertStr ++ func.elim [8] CString.bytes ++ ascii " " ++ file.bytes ++ ascii ":" ++ decimal ++
    ascii " (" ++ expr.bytes ++ ascii ")"

theorem assertFunc_eq (b : Build) (file : CString) {line : ℕ} (hline : line ≤ 99999)
    (func : Option CString) (expr : CString) {lbuf : List U8} (hlbuf : lbuf.length = 6)
    (m : Memory 32) :
    ∃ strs, strs.flatten = assertText func file (numeral 10 decimalDigits line) expr ∧
      assertFunc b file line func expr lbuf m = storeDetails b strs m := by
  refine ⟨[assertStr, func.elim [8] CString.bytes, ascii " ", file.bytes, ascii ":",
    numeral 10 decimalDigits line, ascii " (", expr.bytes, ascii ")"], ?_, ?_⟩
  · simp only [assertText, List.flatten_cons, List.flatten_nil, List.append_nil,
      List.append_assoc]
  · rw [assertFunc, lbuf_eq hline hlbuf]

/-- The details of an assertion failure are the beginning of its text, and no byte beyond
the field is written. -/
theorem assert_details (b : Build) (file : CString) (line : ℤ) (func : Option CString)
    (expr : CString) (lbuf : List U8) (m : Memory 32) (hline : 0 ≤ line ∧ line ≤ 99999)
    (hlbuf : lbuf.length = 6) :
    ∃ decimal, IsDecimal decimal line.toNat ∧ decimal.length < 6 ∧
      itods line lbuf 6 = decimal ++ List.replicate (6 - decimal.length) 0 ∧
      read (assertFunc b file line func expr lbuf m) (b.field detailsOffset)
          (((assertText func file decimal expr).take 247).length + 1) =
        (assertText func file decimal expr).take 247 ++ [0] ∧
      ∀ x, ¬ Within (b.field detailsOffset) abortDetailsLength x →
        ¬ Within (b.field isAbortOffset) 4 x →
          assertFunc b file line func expr lbuf m x = m x := by
  obtain ⟨n, rfl⟩ := Int.eq_ofNat_of_zero_le hline.1
  have hn : n ≤ 99999 := by omega
  have hlength := length_numeral_line hn
  obtain ⟨strs, hflatten, hstore⟩ := assertFunc_eq b file hn func expr hlbuf m
  refine ⟨numeral 10 decimalDigits n, isDecimal_numeral n, by omega,
    itods_eq (by omega) (by decide) hlbuf, ?_, ?_⟩
  · rw [hstore, ← hflatten, read_storeDetails]
  · intro x hdetails habort
    rw [hstore, storeDetails_of_not_within strs hdetails habort]

def fileName : CString := ⟨ascii "a.c", by decide, by decide⟩
def condition : CString := ⟨ascii "x == 1", by decide, by decide⟩

/-- An assertion outside a function, at line 42. -/
theorem assert_details_without_function :
    ∃ decimal, IsDecimal decimal 42 ∧ decimal.length < 6 ∧
      itods 42 [1, 2, 3, 4, 5, 6] 6 = decimal ++ List.replicate (6 - decimal.length) 0 ∧
      read (assertFunc ⟨.esp32c6, 0x50003ff0⟩ fileName 42 none condition [1, 2, 3, 4, 5, 6]
            (fun _ => 0xff)) (Build.field ⟨.esp32c6, 0x50003ff0⟩ detailsOffset)
          (((assertText none fileName decimal condition).take 247).length + 1) =
        (assertText none fileName decimal condition).take 247 ++ [0] ∧
      ∀ x, ¬ Within (Build.field ⟨.esp32c6, 0x50003ff0⟩ detailsOffset) abortDetailsLength x →
        ¬ Within (Build.field ⟨.esp32c6, 0x50003ff0⟩ isAbortOffset) 4 x →
          assertFunc ⟨.esp32c6, 0x50003ff0⟩ fileName 42 none condition [1, 2, 3, 4, 5, 6]
            (fun _ => 0xff) x = 0xff :=
  assert_details _ _ 42 none _ _ (fun _ => 0xff) (by decide) rfl

end Assert

section Report
variable {b : Build} {frame : Frame} {exframe : ExtraFrame} {stack m : Memory 32}
  {behind : ℕ → U32}

/-- A string ends in front of its terminator. -/
theorem stringLoop_eq {a : U32} {text : List U8} {rounds : ℕ}
    (hread : read m a (text.length + 1) = text ++ [0]) (htext : ∀ c ∈ text, c ≠ 0)
    (hrounds : text.length < rounds) : stringLoop m rounds a = text := by
  induction text generalizing a rounds with
  | nil =>
      cases rounds with
      | zero => exact absurd hrounds (Nat.not_lt_zero _)
      | succ rounds =>
          rw [read_succ, List.nil_append, List.cons.injEq] at hread
          rw [stringLoop, if_pos hread.1]
  | cons c text ih =>
      cases rounds with
      | zero => exact absurd hrounds (Nat.not_lt_zero _)
      | succ rounds =>
          rw [read_succ, List.cons_append, List.cons.injEq] at hread
          have hne : m a ≠ 0 := hread.1 ▸ htext c (List.mem_cons_self ..)
          have htail := ih hread.2 (fun x hx => htext x (List.mem_cons_of_mem _ hx))
            (Nat.lt_of_succ_lt_succ hrounds)
          rw [stringLoop, if_neg hne, hread.1]
          exact congrArg (c :: ·) htail

/-- The characters of the report on a dump. -/
def report (b : Build) (frame : Frame) (exframe : ExtraFrame) (stack m : Memory 32)
    (behind : ℕ → U32) : List U8 :=
  (subcorePanicPrint b frame.words.length behind
    (subcorePanicDump b frame exframe stack m)).flatMap Call.chars

/-- After an abort the report begins with the string in the dump. -/
theorem report_begins_with {text : List U8} (hlength : text.length < abortDetailsLength)
    (hread : read m (b.field detailsOffset) (text.length + 1) = text ++ [0])
    (htext : ∀ c ∈ text, c ≠ 0) (habort : word32 m (b.field isAbortOffset) = 1) :
    text ++ ascii "\n" <+: report b frame exframe stack m behind := by
  have hfield : detailsOffset + abortDetailsLength = registerOffset := rfl
  have hend : abortDetailsLength ≤ 2 ^ 32 := by decide
  have hstring : stringAt (subcorePanicDump b frame exframe stack m) (b.field detailsOffset) =
      text := by
    refine stringLoop_eq ?_ htext (by omega)
    rw [← hread]
    exact read_congr fun x hx => dump_header (by omega) (Or.inr (by decide)) hx
  have hflag : word32 (subcorePanicDump b frame exframe stack m) (b.field isAbortOffset) = 1 := by
    rw [← habort]
    exact word32_congr fun x hx => dump_header (by decide) (Or.inl (by decide)) hx
  have hone : (1 : U32) ≠ 0 := by decide
  unfold report subcorePanicPrint
  dsimp only
  rw [hflag, if_pos hone, hstring]
  simp only [List.cons_append, List.flatMap_cons, Call.chars]
  rw [← List.append_assoc]
  exact List.prefix_append ..

/-- The strings of an abort are those that its report begins with. -/
theorem report_of_storeDetails (strs : List (List U8)) (hstrs : ∀ c ∈ strs.flatten, c ≠ 0) :
    strs.flatten.take 247 ++ ascii "\n" <+:
      report b frame exframe stack (storeDetails b strs m) behind := by
  have hlength := length_details strs
  rw [List.length_append, List.length_singleton] at hlength
  exact report_begins_with hlength (read_storeDetails strs)
    (fun c hc => hstrs c (List.mem_of_mem_take hc)) (isAbort_storeDetails strs)

theorem assertStr_ne_zero : ∀ c ∈ assertStr, c ≠ 0 := by decide +kernel

theorem assertText_ne_zero (func : Option CString) (file : CString) {decimal : List U8} {n : ℕ}
    (hdecimal : IsDecimal decimal n) (expr : CString) :
    ∀ c ∈ assertText func file decimal expr, c ≠ 0 := by
  have hfunc : ∀ c ∈ func.elim [8] CString.bytes, c ≠ 0 := by
    cases func with
    | none => decide
    | some func => exact func.no_nul
  simp only [assertText, List.forall_mem_append]
  exact ⟨⟨⟨⟨⟨⟨⟨⟨assertStr_ne_zero, hfunc⟩, by decide⟩, file.no_nul⟩, by decide⟩,
    fun c => hdecimal.ne_zero⟩, by decide⟩, expr.no_nul⟩, by decide⟩

/-- After an assertion failure the report begins with its text. -/
theorem assert_report (file : CString) {line : ℕ} (hline : line ≤ 99999) (func : Option CString)
    (expr : CString) {lbuf : List U8} (hlbuf : lbuf.length = 6) :
    ∃ decimal, IsDecimal decimal line ∧
      (assertText func file decimal expr).take 247 ++ ascii "\n" <+:
        report b frame exframe stack (assertFunc b file line func expr lbuf m) behind := by
  obtain ⟨strs, hflatten, hstore⟩ := assertFunc_eq b file hline func expr hlbuf m
  have htext := assertText_ne_zero func file (isDecimal_numeral line) expr
  refine ⟨_, isDecimal_numeral line, ?_⟩
  rw [← hflatten] at htext ⊢
  rw [hstore]
  exact report_of_storeDetails strs htext

/-- The same assertion in a report with an empty extra frame. -/
theorem assert_report_without_function : ∃ decimal, IsDecimal decimal 42 ∧
    (assertText none fileName decimal condition).take 247 ++ ascii "\n" <+:
      report ⟨.esp32c6, 0x50003ff0⟩
        ⟨[0x50000400, 0, 0x50003fe0] ++ List.replicate 34 0, by decide, by decide⟩
        ⟨0, 0, 0, 0, 0, 0, 0, 0, 0, 0⟩ (fun _ => 0)
        (assertFunc ⟨.esp32c6, 0x50003ff0⟩ fileName (42 : ℕ) none condition [1, 2, 3, 4, 5, 6]
          fun _ => 0xff) (fun _ => 0) :=
  assert_report fileName (by decide) none condition rfl

end Report

section Abort
variable {b : Build} {frame : Frame} {exframe : ExtraFrame} {stack m : Memory 32}
  {behind : ℕ → U32}

theorem itohsLoop_append (n : ℕ) (v : U32) (str : List U8) :
    itohsLoop n v str = itohsLoop n v [] ++ str := by
  induction n generalizing v str with
  | zero => rfl
  | succ n ih =>
      rw [itohsLoop, itohsLoop, ih _ (_ :: str), ih _ [_], List.append_assoc]
      rfl

theorem itohsLoop_succ (n : ℕ) (v : U32) :
    itohsLoop (n + 1) v [] = itohsLoop n (v >>> 4) [] ++ [lowerDigits.getD (v.toNat % 16) 0] := by
  have hdigit : (v &&& 0xf#32).toNat = v.toNat % 16 := by
    rw [BitVec.toNat_and]
    exact Nat.and_two_pow_sub_one_eq_mod _ 4
  rw [itohsLoop, itohsLoop_append, hdigit]

theorem lowerDigits_ne_zero : ∀ c ∈ lowerDigits, c ≠ 0 := by decide +kernel

theorem lowerDigits_getD : ∀ d < 16, lowerDigits.getD d 0 ∈ lowerDigits ∧
    lowerDigits.idxOf (lowerDigits.getD d 0) = d :=
  (digitTables_getD _ (List.mem_cons_of_mem _ (List.mem_cons_self ..))).2.2

/-- The digits of the lower part of a word. -/
theorem itohsLoop_spec (n : ℕ) (v : U32) : (itohsLoop n v []).length = n ∧
    (∀ c ∈ itohsLoop n v [], c ∈ lowerDigits) ∧
    Nat.ofDigits 16 ((itohsLoop n v []).reverse.map lowerDigits.idxOf) = v.toNat % 16 ^ n := by
  induction n generalizing v with
  | zero => exact ⟨rfl, by simp [itohsLoop], (Nat.mod_one _).symm⟩
  | succ n ih =>
      obtain ⟨hlength, hchars, hvalue⟩ := ih (v >>> 4)
      obtain ⟨hdigit, hindex⟩ := lowerDigits_getD (v.toNat % 16) (Nat.mod_lt _ (by decide))
      have hshift : (v >>> 4).toNat = v.toNat / 16 := by
        rw [BitVec.toNat_ushiftRight, Nat.shiftRight_eq_div_pow]
      rw [itohsLoop_succ]
      refine ⟨by rw [List.length_append, hlength, List.length_singleton], ?_, ?_⟩
      · intro c hc
        rcases List.mem_append.mp hc with hc | hc
        · exact hchars c hc
        · rwa [List.mem_singleton.mp hc]
      · rw [List.reverse_append, List.reverse_singleton, List.singleton_append, List.map_cons,
          Nat.ofDigits_cons, hindex, hvalue, hshift, Nat.pow_succ', Nat.mod_mul]

theorem itohs_spec (v : U32) : (itohs v).length = 8 ∧ (∀ c ∈ itohs v, c ∈ lowerDigits) ∧
    Nat.ofDigits 16 ((itohs v).reverse.map lowerDigits.idxOf) = v.toNat := by
  obtain ⟨hlength, hchars, hvalue⟩ := itohsLoop_spec 8 v
  exact ⟨hlength, hchars, hvalue.trans (Nat.mod_eq_of_lt v.isLt)⟩

/-- After an abort the report begins with the address that it was called at. -/
theorem abort_report (returnAddress : U32) :
    ∃ digits, digits.length = 8 ∧ (∀ c ∈ digits, c ∈ lowerDigits) ∧
      Nat.ofDigits 16 (digits.reverse.map lowerDigits.idxOf) = (returnAddress - 4).toNat ∧
      ascii "abort() was called at PC 0x" ++ digits ++ ascii " on subcore" ++ ascii "\n" <+:
        report b frame exframe stack (espAmpSubcoreAbort b returnAddress m) behind := by
  obtain ⟨hlength, hchars, hvalue⟩ := itohs_spec (returnAddress - 4)
  have htext : ∀ c ∈ ascii "abort() was called at PC 0x" ++ itohs (returnAddress - 4) ++
      ascii " on subcore", c ≠ 0 :=
    List.forall_mem_append.mpr
      ⟨List.forall_mem_append.mpr ⟨by decide +kernel,
        fun c hc => lowerDigits_ne_zero c (hchars c hc)⟩, by decide +kernel⟩
  have hflatten : [ascii "abort() was called at PC 0x", itohs (returnAddress - 4),
      ascii " on subcore"].flatten = ascii "abort() was called at PC 0x" ++
        itohs (returnAddress - 4) ++ ascii " on subcore" := by
    rw [List.flatten_cons, List.flatten_cons, List.flatten_cons, List.flatten_nil,
      List.append_nil, List.append_assoc]
  have hshort : (ascii "abort() was called at PC 0x" ++ itohs (returnAddress - 4) ++
      ascii " on subcore").length ≤ 247 := by
    rw [List.length_append, List.length_append, hlength]
    decide
  refine ⟨_, hlength, hchars, hvalue, ?_⟩
  rw [espAmpSubcoreAbort, ← List.take_of_length_le hshort, ← hflatten]
  apply report_of_storeDetails
  rwa [hflatten]

theorem length_silentText (returnAddress : U32) :
    (assertStr ++ ascii "0x" ++ itohs (returnAddress - 4)).length = 36 := by
  rw [List.length_append, List.length_append, (itohs_spec _).1]
  rfl

theorem read_assertFuncSilent (returnAddress : U32) :
    read (assertFuncSilent b returnAddress m) (b.field detailsOffset) 37 =
      assertStr ++ ascii "0x" ++ itohs (returnAddress - 4) ++ [0] := by
  have htext := length_silentText returnAddress
  have hbuff : (assertStr ++ ascii "0x" ++ itohs (returnAddress - 4) ++ [0, 0]).length = 38 := by
    rw [List.length_append, htext]
    rfl
  have hfirst : ∀ x, Within (b.field detailsOffset) 37 x →
      assertFuncSilent b returnAddress m x = write m (b.field detailsOffset)
        (assertStr ++ ascii "0x" ++ itohs (returnAddress - 4) ++ [0, 0]) x := by
    intro x hx
    unfold assertFuncSilent
    rw [write32_of_not_within ((field_apart (by decide) (by decide)).symm x hx),
      write_of_not_within]
    rw [hbuff]
    exact field_apart (by decide) (by decide) x hx
  have hwhole := read_write (m := m) (a := b.field detailsOffset)
    (assertStr ++ ascii "0x" ++ itohs (returnAddress - 4) ++ [0, 0]) (by rw [hbuff]; decide)
  rw [hbuff] at hwhole
  calc read (assertFuncSilent b returnAddress m) (b.field detailsOffset) 37
      = (read (write m (b.field detailsOffset) (assertStr ++ ascii "0x" ++
          itohs (returnAddress - 4) ++ [0, 0])) (b.field detailsOffset) 38).take 37 := by
        rw [read_congr hfirst, take_read]
        rfl
    _ = assertStr ++ ascii "0x" ++ itohs (returnAddress - 4) ++ [0] := by
        rw [hwhole, List.take_append, htext, List.take_of_length_le (by rw [htext]; decide)]
        rfl

/-- A build with silent assertions reports the address alone. -/
theorem silent_assert_report (returnAddress : U32) :
    ∃ digits, digits.length = 8 ∧ (∀ c ∈ digits, c ∈ lowerDigits) ∧
      Nat.ofDigits 16 (digits.reverse.map lowerDigits.idxOf) = (returnAddress - 4).toNat ∧
      assertStr ++ ascii "0x" ++ digits ++ ascii "\n" <+:
        report b frame exframe stack (assertFuncSilent b returnAddress m) behind := by
  obtain ⟨hlength, hchars, hvalue⟩ := itohs_spec (returnAddress - 4)
  have htext := length_silentText returnAddress
  refine ⟨_, hlength, hchars, hvalue, ?_⟩
  apply report_begins_with
  · rw [htext]
    decide
  · rw [htext, read_assertFuncSilent]
  · exact List.forall_mem_append.mpr
      ⟨List.forall_mem_append.mpr ⟨assertStr_ne_zero, by decide⟩,
        fun c hc => lowerDigits_ne_zero c (hchars c hc)⟩
  · exact word32_write32 (by decide) 1

end Abort
end EspAmp.Panic
