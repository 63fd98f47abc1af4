import EspAmp.PrintfConvert

/-!
# Which formats the scanner reads safely

The scanner itself never reads behind the terminator, but it takes the terminator for a
conversion character, and then the main loop does. The conversion buffer is initialised
up to the longest number that was converted so far. A binary conversion emits one
character more than it stores, and so depends on the numbers in front of it. The
directives that assign no length emit what the one in front left of it.
-/
namespace EspAmp.Printf
open ByteMemory

/-- A value that `int` has. -/
def IsInt (x : ℤ) : Prop := -2 ^ 31 ≤ x ∧ x < 2 ^ 31

section Scanner
variable {l : List U8} {c : U8} {cur : Cursor}

/-- The last character read and the rest behind it lie in the text, or the terminator was
read. -/
def Reached (l : List U8) (c : U8) : Cursor → Prop
  | none => c = 0
  | some rest => c :: rest <:+ l

theorem Reached.rest {rest : List U8} (h : Reached l c (some rest)) :
    rest.length < l.length ∧ ∀ x ∈ rest, x ∈ l :=
  ⟨h.length_le, fun _ hx => h.subset (List.mem_cons_of_mem c hx)⟩

theorem next_reached (hc : c ≠ 0) (h : Reached l c cur) :
    ∃ c' cur', next cur = .ok (c', cur') ∧ Reached l c' cur' := by
  match cur, h with
  | none, h => exact absurd h hc
  | some [], _ => exact ⟨0, none, rfl, rfl⟩
  | some (c' :: rest), h => exact ⟨c', some rest, rfl, (List.suffix_cons c _).trans h⟩

theorem skip_reached {e : U8} (he : e ≠ 0) (h : Reached l c cur) :
    ∃ b c' cur', skip e c cur = .ok (b, c', cur') ∧ Reached l c' cur' := by
  rw [skip]
  split_ifs with hc
  · obtain ⟨c', cur', hnext, hreached⟩ := next_reached (hc.trans_ne he) h
    exact ⟨true, c', cur', by rw [hnext]; rfl, hreached⟩
  · exact ⟨false, c, cur, rfl, h⟩

theorem scanDigits_reached {rest : List U8} (prec : ℤ) (h : c :: rest <:+ l) :
    Reached l (scanDigits prec c rest).2.1 (scanDigits prec c rest).2.2 := by
  induction rest generalizing prec c with
  | nil =>
      rw [scanDigits]
      split_ifs
      · rfl
      · exact h
  | cons c' rest ih =>
      rw [scanDigits]
      split_ifs
      · exact ih _ ((List.suffix_cons c _).trans h)
      · exact h

theorem scanDigits_isInt {rest : List U8} {prec : ℤ} (h : IsInt prec) :
    IsInt (scanDigits prec c rest).1 := by
  induction rest generalizing prec c with
  | nil =>
      rw [scanDigits]
      split_ifs
      · exact int32_range _
      · exact h
  | cons c' rest ih =>
      rw [scanDigits]
      split_ifs
      · exact ih (int32_range _)
      · exact h

theorem isInt_zero : IsInt 0 := by
  constructor <;> norm_num

theorem scanNumber_reached (h : Reached l c cur) :
    ∃ n c' cur', scanNumber c cur = .ok (n, c', cur') ∧ Reached l c' cur' ∧ IsInt n := by
  cases cur with
  | none =>
      obtain rfl := h
      exact ⟨0, 0, none, rfl, rfl, isInt_zero⟩
  | some rest => exact ⟨_, _, _, rfl, scanDigits_reached 0 h, scanDigits_isInt isInt_zero⟩

theorem scanPrecision_reached (h : Reached l c cur) :
    ∃ b n c' cur', scanPrecision c cur = .ok (b, n, c', cur') ∧ Reached l c' cur' ∧
      IsInt n := by
  obtain ⟨point, c₁, cur₁, hskip, h₁⟩ := skip_reached (show chr '.' ≠ 0 by decide) h
  simp only [scanPrecision, hskip, bind, Except.bind]
  cases point with
  | false => exact ⟨false, 0, c₁, cur₁, rfl, h₁, isInt_zero⟩
  | true =>
      obtain ⟨n, c₂, cur₂, hnumber, h₂⟩ := scanNumber_reached h₁
      exact ⟨true, n, c₂, cur₂, by rw [hnumber]; rfl, h₂⟩

theorem scanModifier_reached (h : Reached l c cur) :
    ∃ b b' c' cur', scanModifier c cur = .ok (b, b', c', cur') ∧ Reached l c' cur' := by
  have hl : chr 'l' ≠ 0 := by decide
  obtain ⟨long, c₁, cur₁, hskip, h₁⟩ := skip_reached hl h
  simp only [scanModifier, hskip, bind, Except.bind]
  cases long with
  | false => exact ⟨false, false, c₁, cur₁, rfl, h₁⟩
  | true =>
      obtain ⟨longLong, c₂, cur₂, hskip₂, h₂⟩ := skip_reached hl h₁
      exact ⟨!longLong, longLong, c₂, cur₂, by rw [hskip₂]; rfl, h₂⟩

/-- The scanner never reads behind the terminator. -/
theorem scan_reached (l : List U8) :
    ∃ spec c cur, scan (some l) = .ok (spec, c, cur) ∧ Reached l c cur ∧
      IsInt spec.leftPrec ∧ IsInt spec.rightPrec := by
  obtain ⟨c₀, cur₀, hnext, h₀⟩ : ∃ c cur, next (some l) = .ok (c, cur) ∧ Reached l c cur := by
    cases l with
    | nil => exact ⟨0, none, rfl, rfl⟩
    | cons c rest => exact ⟨c, some rest, rfl, List.suffix_rfl⟩
  obtain ⟨minus, c₁, cur₁, hminus, h₁⟩ := skip_reached (show chr '-' ≠ 0 by decide) h₀
  obtain ⟨zero, c₂, cur₂, hzero, h₂⟩ := skip_reached (show chr '0' ≠ 0 by decide) h₁
  obtain ⟨width, c₃, cur₃, hwidth, h₃, hleft⟩ := scanNumber_reached h₂
  obtain ⟨point, prec, c₄, cur₄, hprec, h₄, hright⟩ := scanPrecision_reached h₃
  obtain ⟨long, longLong, c₅, cur₅, hlong, h₅⟩ := scanModifier_reached h₄
  refine ⟨⟨minus, zero && !point, width, prec, long, longLong⟩, c₅, cur₅, ?_, h₅, hleft, hright⟩
  simp only [scan, bind, Except.bind, hnext, hminus, hzero, hwidth, hprec, hlong]

end Scanner

/-- A literal character or a complete directive with the argument it may read. -/
inductive Item where
  | literal (c : U8)
  | directive (spec : Spec) (c : U8) (arg : Arg)

/-- The text consists of these items: no directive contains the terminator. -/
inductive Parsed : (ℕ → Arg) → List U8 → List Item → Prop where
  | nil (ap : ℕ → Arg) : Parsed ap [] []
  | literal {ap : ℕ → Arg} {c : U8} {rest : List U8} {items : List Item} (hc : c ≠ chr '%')
      (hrest : Parsed ap rest items) : Parsed ap (c :: rest) (.literal c :: items)
  | directive {ap : ℕ → Arg} {l rest : List U8} {spec : Spec} {c : U8} {items : List Item}
      (hscan : scan (some l) = .ok (spec, c, some rest))
      (hrest : Parsed (if (convOf c).takesArg then fun i => ap (i + 1) else ap) rest items) :
      Parsed ap (chr '%' :: l) (.directive spec c (ap 0) :: items)

namespace Item

/-- The cells that the digits of a number and their terminator take. -/
def numberCells (n : Number) : ℕ := n.text.length + 1

/-- The cells at the front of the buffer that an item initialises. -/
def filled : Item → ℕ
  | literal _ => 0
  | directive spec c arg =>
      match convOf c with
      | .signed | .unsigned | .hexLower | .hexUpper => numberCells (number spec arg (convOf c))
      | .pointer => numberCells (number { spec with islong := true } arg .hexLower)
      | _ => 0

/-- What an item leaves of `length`. -/
def leftover (length : ℤ) : Item → ℤ
  | literal _ => length
  | directive spec c arg =>
      match convOf c with
      | .signed | .unsigned | .hexLower | .hexUpper | .pointer => -1
      | .string => int32 (min (stringLength spec arg) 0 - 1)
      | .char => length
      | .bits => int32 (min (bitsLength spec) 0 - 1)
      | .percent | .other => int32 (min length 0 - 1)

/-- An item is safe when so many cells are initialised and `length` is as given. -/
def Fits (filled : ℕ) (length : ℤ) : Item → Prop
  | literal _ => True
  | directive spec c _ =>
      match convOf c with
      | .bits => int32 (bitsLength spec - 1) < filled
      | .percent | .other => length ≤ 0
      | _ => True

/-- Every item is safe behind those in front of it. -/
def AllFit : ℕ → ℤ → List Item → Prop
  | _, _, [] => True
  | filled, length, item :: items =>
      item.Fits filled length ∧ AllFit (max filled item.filled) (item.leftover length) items

end Item

/-- The format ends outside a directive and all its directives are safe. -/
def SafeFormat (fmt : CString) (ap : ℕ → Arg) : Prop :=
  ∃ items, Parsed ap fmt.bytes items ∧ Item.AllFit 0 0 items

section Cells

/-- A buffer whose first cells are initialised, and no others. -/
def Filled (k : ℕ) (buf : Cells) : Prop :=
  k ≤ 64 ∧ ∃ front : List U8, front.length = k ∧
    buf = front.map some ++ List.replicate (64 - k) none

theorem Filled.length {k : ℕ} {buf : Cells} (h : Filled k buf) : buf.length = 64 := by
  obtain ⟨hk, front, hfront, rfl⟩ := h
  simp only [List.length_append, List.length_map, List.length_replicate]
  omega

theorem Filled.store {k : ℕ} {buf : Cells} (h : Filled k buf) (cs : List U8)
    (hcs : cs.length ≤ 64) : Filled (max k cs.length) (cs.map some ++ buf.drop cs.length) := by
  obtain ⟨hk, front, hfront, rfl⟩ := h
  refine ⟨max_le hk hcs, cs ++ front.drop cs.length, ?_, ?_⟩
  · rw [List.length_append, List.length_drop]
    omega
  · rw [List.drop_append, List.map_append, List.append_assoc, List.map_drop, List.length_map,
      List.drop_replicate]
    congr 3
    omega

theorem store_error {cs : List U8} {buf : Cells} {i : ℕ} (hi : i ≤ buf.length)
    (hlen : buf.length < i + cs.length) : store buf i cs = .error .writeBuf := by
  induction cs generalizing buf i with
  | nil => simp at hlen; omega
  | cons c cs ih =>
      rw [store]
      split_ifs with hlt
      · rw [List.length_cons] at hlen
        exact ih (by rw [List.length_set]; omega) (by rw [List.length_set]; omega)
      · rfl

/-- Only leading initialised cells are read. -/
theorem readChars_le {n : ℕ} {cp : Cells} {r : List U8 × Cells}
    (h : readChars n cp = .ok r) : n ≤ (cp.takeWhile Option.isSome).length := by
  induction n generalizing cp r with
  | zero => exact Nat.zero_le _
  | succ n ih =>
      match cp with
      | [] => simp [readChars] at h
      | none :: cp => simp [readChars] at h
      | some c :: cp =>
          cases hread : readChars n cp with
          | error e => simp [readChars, hread, Except.map] at h
          | ok r' =>
              rw [List.takeWhile_cons_of_pos rfl, List.length_cons]
              exact Nat.succ_le_succ (ih hread)

theorem Filled.takeWhile_length {k : ℕ} {buf : Cells} (h : Filled k buf) :
    (buf.takeWhile Option.isSome).length = k := by
  obtain ⟨-, front, rfl, rfl⟩ := h
  have hsome : ∀ x ∈ front.map some, x.isSome = true := by simp
  have hnone : (List.replicate (64 - front.length) (none : Option U8)).takeWhile Option.isSome =
      [] := by
    cases 64 - front.length <;> rfl
  rw [List.takeWhile_append_of_pos hsome, hnone, List.append_nil, List.length_map]

theorem Filled.readChars {k n : ℕ} {buf : Cells} (h : Filled k buf) (hn : n ≤ k) :
    ∃ text, readChars n buf = .ok (text, buf.drop n) := by
  obtain ⟨-, front, rfl, rfl⟩ := h
  refine ⟨front.take n, ?_⟩
  have hread := readChars_eq (front.take n)
    ((front.drop n).map some ++ List.replicate (64 - front.length) none)
  rw [← List.append_assoc, ← List.map_append, List.take_append_drop, List.length_take,
    min_eq_left hn] at hread
  rw [hread, List.drop_append_of_le_length (by simpa using hn), List.map_drop]

end Cells

section Items
variable {k : ℕ} {length : ℤ} {st : State} {spec : Spec} {c : U8} {arg : Arg}

/-- What the items in front of a state tell about it. A positive `length` comes from a
wrapped subtraction and exceeds every object. -/
structure Tracked (k : ℕ) (length : ℤ) (st : State) : Prop where
  buf : Filled k st.buf
  cp : st.cp.length + 1 < 2 ^ 31
  length_eq : st.length = length
  wrapped : -2 ^ 31 ≤ length ∧ (length ≤ 0 ∨ length = 2 ^ 31 - 1)

theorem wrapped_leftover {x : ℤ} (hx : -2 ^ 31 ≤ x) :
    -2 ^ 31 ≤ int32 (min x 0 - 1) ∧
      (int32 (min x 0 - 1) ≤ 0 ∨ int32 (min x 0 - 1) = 2 ^ 31 - 1) := by
  refine ⟨(int32_range _).1, ?_⟩
  by_cases hmin : x = -2 ^ 31
  · right
    rw [hmin]
    decide
  · left
    rw [int32_of_range (by omega) (by omega)]
    omega

theorem putNumber_tracked (h : Tracked k length st) (spec : Spec) {n : Number}
    (hradix : 10 ≤ n.radix) :
    ∃ st', putNumber spec n st = .ok st' ∧ Tracked (max k (Item.numberCells n)) (-1) st' := by
  have hcells : (n.text ++ [0]).length = Item.numberCells n := by
    rw [List.length_append, List.length_singleton, Item.numberCells]
  have hle : Item.numberCells n ≤ 21 := Nat.succ_le_succ (Number.length_text hradix)
  have hfilled := h.buf.store (n.text ++ [0]) (by omega)
  rw [hcells] at hfilled
  refine ⟨_, putNumber_eq hradix h.buf.length, hfilled, ?_, rfl, by norm_num⟩
  rw [List.length_drop, length_numberBuf hradix h.buf.length]
  omega

theorem bitsLength_isInt (hspec : IsInt spec.leftPrec) : IsInt (bitsLength spec) := by
  rw [bitsLength]
  split_ifs
  · constructor <;> norm_num
  · constructor <;> norm_num
  · exact hspec

theorem length_bitChars (x : ℤ) (val : U64) : (bitChars x val).length = (int32 (x - 1)).toNat := by
  rw [bitChars, List.length_map, List.length_range]

theorem finish_error {negative : Bool}
    (hread : (st.cp.takeWhile Option.isSome).length < st.length.toNat) :
    ∃ e, finish spec negative st = .error e := by
  cases hchars : readChars st.length.toNat st.cp with
  | error e => exact ⟨e, by rw [finish, hchars]; rfl⟩
  | ok r =>
      have hle := readChars_le hchars
      omega

theorem bits_store (h : Tracked k length st) (arg : Arg) (hconv : convOf c = .bits)
    (hroom : int32 (bitsLength spec - 1) ≤ 64) :
    ∃ buf, Filled (max k (int32 (bitsLength spec - 1)).toNat) buf ∧
      convert spec c arg st =
        finish spec false { st with buf := buf, cp := buf, length := bitsLength spec } := by
  have hlen := length_bitChars (bitsLength spec) (masked spec (fetch spec arg))
  have hfilled := h.buf.store (bitChars (bitsLength spec) (masked spec (fetch spec arg)))
    (by omega)
  rw [hlen] at hfilled
  have hstore := store_front
    (show (bitChars (bitsLength spec) (masked spec (fetch spec arg))).length ≤ st.buf.length by
      rw [h.buf.length]
      omega)
  refine ⟨_, hfilled, ?_⟩
  simp only [convert, hconv, hstore, bind, Except.bind, hlen]

/-- A binary conversion also emits the cell behind those it stores. -/
theorem bits_tracked (h : Tracked k length st) (arg : Arg) (hspec : IsInt spec.leftPrec)
    (hconv : convOf c = .bits) (hfits : int32 (bitsLength spec - 1) < k) :
    ∃ st', convert spec c arg st = .ok st' ∧
      Tracked k (int32 (min (bitsLength spec) 0 - 1)) st' := by
  have hk := h.buf.1
  obtain ⟨hlow, hhigh⟩ := bitsLength_isInt hspec
  have hle : (bitsLength spec).toNat ≤ k := by
    by_cases hmin : bitsLength spec = -2 ^ 31
    · rw [hmin]
      exact Nat.zero_le k
    · rw [int32_of_range (by omega) (by omega)] at hfits
      omega
  have hroom : int32 (bitsLength spec - 1) ≤ 64 := by omega
  obtain ⟨buf, hfilled, hconvert⟩ := bits_store h arg hconv hroom
  rw [max_eq_left (by omega)] at hfilled
  obtain ⟨text, hread⟩ := hfilled.readChars hle
  refine ⟨_, hconvert.trans (finish_eq hread), ⟨hfilled, ?_, rfl, wrapped_leftover hlow⟩⟩
  rw [List.length_drop, hfilled.length]
  omega

theorem bits_error (h : Tracked k length st) (arg : Arg) (hspec : IsInt spec.leftPrec)
    (hconv : convOf c = .bits) (hfits : k ≤ int32 (bitsLength spec - 1)) :
    ∃ e, convert spec c arg st = .error e := by
  obtain ⟨hlow, hhigh⟩ := bitsLength_isInt hspec
  by_cases hroom : int32 (bitsLength spec - 1) ≤ 64
  · obtain ⟨buf, hfilled, hconvert⟩ := bits_store h arg hconv hroom
    have hmin : bitsLength spec ≠ -2 ^ 31 := by
      intro hmin
      rw [hmin] at hroom
      exact absurd hroom (by decide)
    rw [int32_of_range (by omega) (by omega)] at hfits hfilled
    rw [hconvert]
    refine finish_error ?_
    rw [hfilled.takeWhile_length]
    change _ < (bitsLength spec).toNat
    omega
  · have hlen := length_bitChars (bitsLength spec) (masked spec (fetch spec arg))
    have hk := h.buf.1
    simp only [convert, hconv]
    rw [store_error (Nat.zero_le _) (by rw [h.buf.length]; omega)]
    exact ⟨_, rfl⟩

theorem Tracked.put (h : Tracked k length st) (cs : List U8) (counted : ℕ) :
    Tracked k length (st.put cs counted) :=
  ⟨h.buf, h.cp, h.length_eq, h.wrapped⟩

theorem finish_tracked (h : Tracked k length st) (spec : Spec) (hlength : length ≤ 0) :
    ∃ st', finish spec false st = .ok st' ∧ Tracked k (int32 (min length 0 - 1)) st' := by
  obtain rfl := h.length_eq
  rw [min_eq_left hlength]
  have hwrapped := wrapped_leftover h.wrapped.1
  rw [min_eq_left hlength] at hwrapped
  exact ⟨_, finish_of_nonpos hlength, ⟨h.buf, h.cp, rfl, hwrapped⟩⟩

/-- No object has as many characters as a wrapped `length` counts. -/
theorem finish_tracked_error (h : Tracked k length st) (spec : Spec) (hlength : ¬ length ≤ 0) :
    ∃ e, finish spec false st = .error e := by
  have hprefix := (List.takeWhile_prefix (l := st.cp) Option.isSome).length_le
  have hcp := h.cp
  have hwrapped := h.wrapped.2
  refine finish_error ?_
  rw [h.length_eq]
  omega

theorem string_tracked (h : Tracked k length st) (arg : Arg) (hspec : IsInt spec.rightPrec)
    (hconv : convOf c = .string) :
    ∃ st', convert spec c arg st = .ok st' ∧
      Tracked k (int32 (min (stringLength spec arg) 0 - 1)) st' := by
  have hlow : -2 ^ 31 ≤ stringLength spec arg := by
    have := hspec.1
    rw [stringLength]
    split_ifs <;> omega
  have hsize : (argText arg).length + 2 < 2 ^ 31 := by
    rw [argText]
    cases arg.string with
    | none => decide
    | some s => exact s.size
  have hconvert : convert spec c arg st = finish { spec with rightPrec := 0 } false
      { st with cp := (argText arg ++ [0]).map some, length := stringLength spec arg } := by
    simp only [convert, hconv, stringLength]
  refine ⟨_, hconvert.trans (putString_eq arg), ⟨h.buf, ?_, rfl, wrapped_leftover hlow⟩⟩
  rw [List.length_map, List.length_append, List.length_drop, List.length_singleton]
  omega

/-- A safe directive keeps what is known about the state. -/
theorem convert_tracked (h : Tracked k length st) (hleft : IsInt spec.leftPrec)
    (hright : IsInt spec.rightPrec) (hfits : (Item.directive spec c arg).Fits k length) :
    ∃ st', convert spec c arg st = .ok st' ∧
      Tracked (max k (Item.directive spec c arg).filled)
        ((Item.directive spec c arg).leftover length) st' := by
  simp only [Item.Fits] at hfits
  simp only [Item.filled, Item.leftover]
  cases hconv : convOf c with
  | bits =>
      rw [hconv] at hfits
      simpa using bits_tracked h arg hleft hconv hfits
  | string => simpa using string_tracked h arg hright hconv
  | percent =>
      rw [hconv] at hfits
      simpa [convert, hconv] using finish_tracked (h.put (ascii "%") 0) spec hfits
  | other =>
      rw [hconv] at hfits
      simpa [convert, hconv] using finish_tracked (h.put [chr '%', c] 2) spec hfits
  | char => simpa [convert, hconv] using h.put [arg.int.setWidth 8] 1
  | pointer =>
      simpa [convert, hconv] using putNumber_tracked (h.put (ascii "0x") 0) _
        (number_radix { spec with islong := true } arg .hexLower)
  | signed =>
      simpa [convert, hconv] using putNumber_tracked h spec (number_radix spec arg .signed)
  | unsigned =>
      simpa [convert, hconv] using putNumber_tracked h spec (number_radix spec arg .unsigned)
  | hexLower =>
      simpa [convert, hconv] using putNumber_tracked h spec (number_radix spec arg .hexLower)
  | hexUpper =>
      simpa [convert, hconv] using putNumber_tracked h spec (number_radix spec arg .hexUpper)

theorem convert_error (h : Tracked k length st) (hleft : IsInt spec.leftPrec)
    (hfits : ¬ (Item.directive spec c arg).Fits k length) :
    ∃ e, convert spec c arg st = .error e := by
  simp only [Item.Fits] at hfits
  cases hconv : convOf c with
  | bits =>
      rw [hconv] at hfits
      exact bits_error h arg hleft hconv (not_lt.mp hfits)
  | percent =>
      rw [hconv] at hfits
      simpa [convert, hconv] using finish_tracked_error (h.put (ascii "%") 0) spec hfits
  | other =>
      rw [hconv] at hfits
      simpa [convert, hconv] using finish_tracked_error (h.put [chr '%', c] 2) spec hfits
  | _ => simp [hconv] at hfits

end Items

section Run
variable {ap : ℕ → Arg} {l rest : List U8} {spec : Spec} {c : U8} {items : List Item}

theorem parsed_literal (hc : c ≠ chr '%') (h : Parsed ap (c :: rest) items) :
    ∃ items', items = .literal c :: items' ∧ Parsed ap rest items' := by
  cases h with
  | literal _ hrest => exact ⟨_, rfl, hrest⟩
  | directive _ _ => exact absurd rfl hc

theorem parsed_directive {cur : Cursor} (hscan : scan (some l) = .ok (spec, c, cur))
    (h : Parsed ap (chr '%' :: l) items) :
    ∃ rest items', cur = some rest ∧ items = .directive spec c (ap 0) :: items' ∧
      Parsed (if (convOf c).takesArg then fun i => ap (i + 1) else ap) rest items' := by
  cases h with
  | literal hc _ => exact absurd rfl hc
  | @directive _ _ rest _ _ items' hscan' hrest =>
      obtain ⟨rfl, rfl, rfl⟩ : _ ∧ _ ∧ _ := by
        simpa using hscan.symm.trans hscan'
      exact ⟨rest, items', rfl, rfl, hrest⟩

theorem vprintfLoop_literal (fuel : ℕ) (st : State) (hzero : c ≠ 0) (hc : c ≠ chr '%') :
    vprintfLoop (fuel + 1) ap (some (c :: rest)) st =
      vprintfLoop fuel ap (some rest) (st.put [c] 1) := by
  rw [vprintfLoop, next]
  simp only [bind, Except.bind, if_neg hzero, if_neg hc]

theorem vprintfLoop_directive (fuel : ℕ) (st : State) {cur : Cursor}
    (hscan : scan (some l) = .ok (spec, c, cur)) :
    vprintfLoop (fuel + 1) ap (some (chr '%' :: l)) st =
      (convert spec c (ap 0) st).bind
        (vprintfLoop fuel (if (convOf c).takesArg then fun i => ap (i + 1) else ap) cur) := by
  rw [vprintfLoop, next]
  simp only [bind, Except.bind, hscan]
  rfl

theorem vprintfLoop_none (fuel : ℕ) (st st' : State) :
    vprintfLoop fuel ap none st ≠ .ok st' := by
  cases fuel <;> simp [vprintfLoop, next, bind, Except.bind]

/-- The round of a directive, given the rounds behind it. -/
theorem directive_ok_iff {fuel k : ℕ} {length : ℤ} {st : State} {cur : Cursor}
    (hscan : scan (some l) = .ok (spec, c, cur)) (hleft : IsInt spec.leftPrec)
    (hright : IsInt spec.rightPrec) (h : Tracked k length st)
    (hrest : ∀ rest, cur = some rest → ∀ {k length st}, Tracked k length st →
      ((∃ st', vprintfLoop fuel (if (convOf c).takesArg then fun i => ap (i + 1) else ap)
          (some rest) st = .ok st') ↔
        ∃ items, Parsed (if (convOf c).takesArg then fun i => ap (i + 1) else ap) rest items ∧
          Item.AllFit k length items)) :
    (∃ st', vprintfLoop (fuel + 1) ap (some (chr '%' :: l)) st = .ok st') ↔
      ∃ items, Parsed ap (chr '%' :: l) items ∧ Item.AllFit k length items := by
  rw [vprintfLoop_directive fuel st hscan]
  constructor
  · rintro ⟨st', hrun⟩
    by_cases hfits : (Item.directive spec c (ap 0)).Fits k length
    · obtain ⟨st₁, hconvert, h₁⟩ := convert_tracked h hleft hright hfits
      rw [hconvert, Except.bind] at hrun
      cases cur with
      | none => exact absurd hrun (vprintfLoop_none fuel st₁ st')
      | some rest =>
          obtain ⟨items, hparsed, hall⟩ := (hrest rest rfl h₁).mp ⟨st', hrun⟩
          exact ⟨_, .directive hscan hparsed, hfits, hall⟩
    · obtain ⟨e, he⟩ := convert_error h hleft hfits
      rw [he] at hrun
      exact nomatch hrun
  · rintro ⟨items, hparsed, hall⟩
    obtain ⟨rest, items', rfl, rfl, hparsed'⟩ := parsed_directive hscan hparsed
    obtain ⟨st₁, hconvert, h₁⟩ := convert_tracked h hleft hright hall.1
    rw [hconvert]
    exact (hrest rest rfl h₁).mpr ⟨items', hparsed', hall.2⟩

/-- A run of the main loop ends without a fault exactly on complete and safe items. -/
theorem vprintfLoop_ok_iff {fuel k : ℕ} {length : ℤ} {st : State} (hfuel : l.length < fuel)
    (hnul : ∀ c ∈ l, c ≠ 0) (h : Tracked k length st) :
    (∃ st', vprintfLoop fuel ap (some l) st = .ok st') ↔
      ∃ items, Parsed ap l items ∧ Item.AllFit k length items := by
  induction fuel generalizing ap l k length st with
  | zero => exact absurd hfuel (Nat.not_lt_zero _)
  | succ fuel ih =>
      cases l with
      | nil => exact ⟨fun _ => ⟨[], .nil ap, trivial⟩, fun _ => ⟨st, rfl⟩⟩
      | cons c rest =>
          rw [List.forall_mem_cons] at hnul
          rw [List.length_cons] at hfuel
          by_cases hc : c = chr '%'
          · subst hc
            obtain ⟨spec, c', cur, hscan, hreached, hleft, hright⟩ := scan_reached rest
            refine directive_ok_iff hscan hleft hright h ?_
            rintro rest' rfl k' length' st₁ h₁
            obtain ⟨hlen, hmem⟩ := hreached.rest
            exact ih (by omega) (fun x hx => hnul.2 x (hmem x hx)) h₁
          · rw [vprintfLoop_literal fuel st hnul.1 hc, ih (by omega) hnul.2 (h.put [c] 1)]
            constructor
            · rintro ⟨items, hparsed, hall⟩
              exact ⟨.literal c :: items, .literal hc hparsed, trivial,
                by simpa [Item.filled, Item.leftover] using hall⟩
            · rintro ⟨items, hparsed, hall⟩
              obtain ⟨items', rfl, hparsed'⟩ := parsed_literal hc hparsed
              exact ⟨items', hparsed', by simpa [Item.filled, Item.leftover] using hall.2⟩

theorem start_tracked : Tracked 0 0 State.start :=
  ⟨⟨by decide, [], rfl, rfl⟩, by decide, rfl, by norm_num⟩

end Run

/-- The formatter ends without a read or write outside its objects, and without emitting an
uninitialised character, exactly on the safe formats. -/
theorem vprintf_is_safe_iff (fmt : CString) (ap : ℕ → Arg) :
    (∃ result, subcoreVprintf fmt ap = .ok result) ↔ SafeFormat fmt ap := by
  rw [SafeFormat, ← vprintfLoop_ok_iff (Nat.lt_succ_self _) fmt.no_nul start_tracked,
    subcoreVprintf]
  cases vprintfLoop (fmt.bytes.length + 1) ap (some fmt.bytes) .start with
  | error e => simp [Except.map]
  | ok st => simp [Except.map]

def zeroArg : Arg := ⟨0, 0, 0, none⟩

/-- The formats `%`, `%b` and `%66b` read behind the terminator, emit an uninitialised
character and write behind the buffer. -/
theorem truncated_directive_is_unsafe :
    (¬ ∃ result, subcoreVprintf ⟨ascii "%", by decide, by decide⟩ (fun _ => zeroArg) =
        .ok result) ∧
      subcoreVprintf ⟨ascii "%", by decide, by decide⟩ (fun _ => zeroArg) =
        .error .readFormat ∧
      subcoreVprintf ⟨ascii "%b", by decide, by decide⟩ (fun _ => zeroArg) =
        .error .readChar ∧
      subcoreVprintf ⟨ascii "%66b", by decide, by decide⟩ (fun _ => zeroArg) =
        .error .writeBuf := by
  have hpercent : subcoreVprintf ⟨ascii "%", by decide, by decide⟩ (fun _ => zeroArg) =
      .error .readFormat := by rfl
  refine ⟨?_, hpercent, rfl, rfl⟩
  rintro ⟨result, hok⟩
  exact nomatch hpercent.symm.trans hok

end EspAmp.Printf
