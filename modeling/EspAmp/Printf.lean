import EspAmp.ByteMemory
import Mathlib.Data.Int.Init

/-!
# The formatter of the subcore

`subcore_vprintf` and `_cvt` of `esp_amp_print.c`. The 32-bit `int` is an integer that
every operation wraps. A pointer into the format is the rest of the text in front of its
terminator, or `none` behind the terminator, from which no read is allowed. Cells of the
conversion buffer that were never written hold `none`. A read or write outside an object
ends the call with a fault. What a variable argument reads as is given for each type, so
a list of arguments matches every format.

The variables that live across the directives of one call are the buffer, the pointer
`cp` as the cells that can be read from it, `length` and `res`; `val` is always assigned
before it is used.
-/
namespace EspAmp.Printf
open ByteMemory

/-- The value of an `int` after an operation. -/
def int32 (x : ℤ) : ℤ := Int.bmod x (2 ^ 32)

def chr (c : Char) : U8 := BitVec.ofNat 8 c.toNat

def ascii (s : String) : List U8 := s.toList.map chr

/-- A C string in front of its terminator. Every object is smaller than `PTRDIFF_MAX`. -/
structure CString where
  bytes : List U8
  no_nul : ∀ c ∈ bytes, c ≠ 0
  size : bytes.length + 2 < 2 ^ 31

/-- What one argument reads as. -/
structure Arg where
  int : U32
  long : U32
  longLong : U64
  string : Option CString

inductive Fault where
  | readFormat
  | writeTemp
  | writeBuf
  | readChar
  | fuel
deriving DecidableEq, Repr

section Scanner

abbrev Cursor := Option (List U8)

/-- `*fmt++` -/
def next : Cursor → Except Fault (U8 × Cursor)
  | none => .error .readFormat
  | some [] => .ok (0, none)
  | some (c :: rest) => .ok (c, some rest)

def isDigit (c : U8) : Bool := chr '0' ≤ c && c ≤ chr '9'

/-- `prec = (prec * 10) + (c - '0')` -/
def addDigit (prec : ℤ) (c : U8) : ℤ := int32 (prec * 10 + (c.toNat - (chr '0').toNat))

/-- The loop over the digits of a number, behind the read of `c`. -/
def scanDigits (prec : ℤ) (c : U8) : List U8 → ℤ × U8 × Cursor
  | [] => if isDigit c then (addDigit prec c, 0, none) else (prec, c, some [])
  | c' :: rest =>
      if isDigit c then scanDigits (addDigit prec c) c' rest else (prec, c, some (c' :: rest))

def scanNumber (c : U8) : Cursor → Except Fault (ℤ × U8 × Cursor)
  | none => if isDigit c then .error .readFormat else .ok (0, c, none)
  | some rest => .ok (scanDigits 0 c rest)

/-- The variables that a directive sets in front of its conversion character. -/
structure Spec where
  padOnRight : Bool
  zeroFill : Bool
  leftPrec : ℤ
  rightPrec : ℤ
  islong : Bool
  islonglong : Bool
deriving DecidableEq, Repr

/-- Reads one more character if `c` is the expected one. -/
def skip (expected c : U8) (cur : Cursor) : Except Fault (Bool × U8 × Cursor) :=
  if c = expected then (next cur).map fun r => (true, r) else .ok (false, c, cur)

/-- The precision: whether there is a point, and the number behind it. -/
def scanPrecision (c : U8) (cur : Cursor) : Except Fault (Bool × ℤ × U8 × Cursor) := do
  let (point, c, cur) ← skip (chr '.') c cur
  if point then (scanNumber c cur).map fun r => (true, r) else .ok (false, 0, c, cur)

/-- `islong` and `islonglong` of the size modifier. -/
def scanModifier (c : U8) (cur : Cursor) : Except Fault (Bool × Bool × U8 × Cursor) := do
  let (long, c, cur) ← skip (chr 'l') c cur
  if long then (skip (chr 'l') c cur).map fun r => (!r.1, r) else .ok (false, false, c, cur)

/-- The directive behind its `%`, up to and with its conversion character. -/
def scan (cur : Cursor) : Except Fault (Spec × U8 × Cursor) := do
  let (c, cur) ← next cur
  let (padOnRight, c, cur) ← skip (chr '-') c cur
  let (zeroFill, c, cur) ← skip (chr '0') c cur
  let (leftPrec, c, cur) ← scanNumber c cur
  let (point, rightPrec, c, cur) ← scanPrecision c cur
  let (islong, islonglong, c, cur) ← scanModifier c cur
  .ok (⟨padOnRight, zeroFill && !point, leftPrec, rightPrec, islong, islonglong⟩, c, cur)

end Scanner

section Conversion

/-- The cases of the two switches. -/
inductive Conv where
  | signed
  | unsigned
  | hexLower
  | hexUpper
  | pointer
  | string
  | char
  | bits
  | percent
  | other
deriving DecidableEq, Repr

def convOf (c : U8) : Conv :=
  if c = chr 'd' ∨ c = chr 'D' then .signed
  else if c = chr 'u' ∨ c = chr 'U' then .unsigned
  else if c = chr 'x' then .hexLower
  else if c = chr 'X' then .hexUpper
  else if c = chr 'p' then .pointer
  else if c = chr 's' ∨ c = chr 'S' then .string
  else if c = chr 'c' ∨ c = chr 'C' then .char
  else if c = chr 'b' ∨ c = chr 'B' then .bits
  else if c = chr '%' then .percent
  else .other

/-- The case reads an argument. -/
def Conv.takesArg : Conv → Bool
  | .percent | .other => false
  | _ => true

/-- The argument of an integer conversion as `long long`. -/
def fetch (spec : Spec) (arg : Arg) : U64 :=
  if spec.islonglong then arg.longLong
  else if spec.islong then arg.long.signExtend 64
  else arg.int.signExtend 64

/-- The value of a conversion other than a signed one. -/
def masked (spec : Spec) (val : U64) : U64 :=
  if spec.islonglong then val else val &&& 0xffffffff#64

/-- The sign and the magnitude of a signed conversion. -/
def signed (val : U64) : Bool × U64 := if val.slt 0 then (true, -val) else (false, val)

/-- The digits pushed to `temp`, which has room for so many more. -/
def pushDigits (radix : ℕ) (digits : List U8) : ℕ → ℕ → Except Fault (List U8)
  | room, val =>
      if val = 0 then .ok []
      else
        match room with
        | 0 => .error .writeTemp
        | room + 1 =>
            (pushDigits radix digits room (val / radix)).map (digits.getD (val % radix) 0 :: ·)

/-- The characters that `_cvt` stores in front of the terminator. -/
def cvt (val radix : ℕ) (digits : List U8) : Except Fault (List U8) :=
  if val = 0 then .ok [chr '0'] else (pushDigits radix digits 64 val).map List.reverse

abbrev Cells := List (Option U8)

/-- Stores from an index of the buffer on. -/
def store (buf : Cells) : ℕ → List U8 → Except Fault Cells
  | _, [] => .ok buf
  | i, c :: cs => if i < buf.length then store (buf.set i (some c)) (i + 1) cs else .error .writeBuf

/-- `while (length-- > 0) { c = *cp++; (*putc)(c); }`: the characters and the cells behind
them. -/
def readChars : ℕ → Cells → Except Fault (List U8 × Cells)
  | 0, cp => .ok ([], cp)
  | _ + 1, [] => .error .readChar
  | _ + 1, none :: _ => .error .readChar
  | n + 1, some c :: cp => (readChars n cp).map fun r => (c :: r.1, r.2)

structure State where
  buf : Cells
  cp : Cells
  length : ℤ
  res : ℤ
  out : List U8

def State.start : State where
  buf := List.replicate 64 none
  cp := List.replicate 64 none
  length := 0
  res := 0
  out := []

/-- `(*putc)` for some characters, with `res` advanced by `counted`. -/
def State.put (st : State) (cs : List U8) (counted : ℕ) : State :=
  { st with out := st.out ++ cs, res := int32 (st.res + counted) }

/-- `while (n-- > 0) (*putc)(c);` -/
def fill (n : ℤ) (c : U8) : List U8 := List.replicate n.toNat c

/-- The padding that is left of a width. -/
def padding (spec : Spec) (negative : Bool) (length : ℤ) : ℤ :=
  let pad := int32 (spec.leftPrec - length)
  let zeros := int32 (spec.rightPrec - length)
  let pad := if 0 < zeros then int32 (pad - zeros) else pad
  if negative then int32 (pad - 1) else pad

/-- What the part that all conversions share emits: padding, sign, zeros and the characters
at `cp`. -/
def layout (spec : Spec) (negative : Bool) (length : ℤ) (text : List U8) : List U8 :=
  let pad := padding spec negative length
  let sign := if negative then [chr '-'] else []
  (if spec.zeroFill then sign else []) ++
    (if spec.padOnRight then [] else fill pad (if spec.zeroFill then chr '0' else chr ' ')) ++
    (if spec.zeroFill then [] else sign) ++
    fill (int32 (spec.rightPrec - length)) (chr '0') ++ text ++
    if spec.padOnRight then fill pad (chr ' ') else []

/-- The shared part, which counts every character and leaves `length` below zero. -/
def finish (spec : Spec) (negative : Bool) (st : State) : Except Fault State := do
  let (text, cp) ← readChars st.length.toNat st.cp
  let cs := layout spec negative st.length text
  .ok { st.put cs cs.length with cp := cp, length := int32 (min st.length 0 - 1) }

def decimalDigits : List U8 := ascii "0123456789"
def lowerDigits : List U8 := ascii "0123456789abcdef"
def upperDigits : List U8 := ascii "0123456789ABCDEF"

/-- The arguments of `_cvt` and the sign. -/
structure Number where
  negative : Bool
  val : U64
  radix : ℕ
  digits : List U8

/-- What an integer conversion passes to `_cvt`. -/
def number (spec : Spec) (arg : Arg) : Conv → Number
  | .signed => ⟨(signed (fetch spec arg)).1, (signed (fetch spec arg)).2, 10, decimalDigits⟩
  | .hexLower => ⟨false, masked spec (fetch spec arg), 16, lowerDigits⟩
  | .hexUpper => ⟨false, masked spec (fetch spec arg), 16, upperDigits⟩
  | _ => ⟨false, masked spec (fetch spec arg), 10, decimalDigits⟩

/-- A conversion through `_cvt`. -/
def putNumber (spec : Spec) (n : Number) (st : State) : Except Fault State := do
  let cs ← cvt n.val.toNat n.radix n.digits
  let buf ← store st.buf 0 (cs ++ [0])
  finish spec n.negative { st with buf := buf, cp := buf, length := cs.length }

/-- The length of a binary conversion. -/
def bitsLength (spec : Spec) : ℤ :=
  if spec.leftPrec = 0 then (if spec.islonglong then 64 else 32) else spec.leftPrec

/-- The loop of a binary conversion stores all but its last character. -/
def bitChars (length : ℤ) (val : U64) : List U8 :=
  (List.range (int32 (length - 1)).toNat).map fun i => if val.getLsbD i then chr '1' else chr '.'

def argText (arg : Arg) : List U8 :=
  match arg.string with
  | none => ascii "<null>"
  | some s => s.bytes

/-- One directive with the argument it may read. -/
def convert (spec : Spec) (c : U8) (arg : Arg) (st : State) : Except Fault State :=
  match convOf c with
  | .signed | .unsigned | .hexLower | .hexUpper => putNumber spec (number spec arg (convOf c)) st
  | .pointer =>
      let spec := { spec with islong := true }
      putNumber { spec with zeroFill := true, leftPrec := 8 } (number spec arg .hexLower)
        (st.put (ascii "0x") 0)
  | .string =>
      let text := argText arg
      finish { spec with rightPrec := 0 } false
        { st with
          cp := (text ++ [0]).map some
          length := if spec.rightPrec = 0 then text.length else min spec.rightPrec text.length }
  | .char => .ok (st.put [arg.int.setWidth 8] 1)
  | .bits => do
      let length := bitsLength spec
      let buf ← store st.buf 0 (bitChars length (masked spec (fetch spec arg)))
      finish spec false { st with buf := buf, cp := buf, length := length }
  | .percent => finish spec false (st.put (ascii "%") 0)
  | .other => finish spec false (st.put [chr '%', c] 2)

end Conversion

/-- The main loop. -/
def vprintfLoop : ℕ → (ℕ → Arg) → Cursor → State → Except Fault State
  | 0, _, _, _ => .error .fuel
  | fuel + 1, ap, fmt, st => do
      let (c, fmt) ← next fmt
      if c = 0 then .ok st
      else if c = chr '%' then
        let (spec, c, fmt) ← scan fmt
        let st ← convert spec c (ap 0) st
        vprintfLoop fuel (if (convOf c).takesArg then fun i => ap (i + 1) else ap) fmt st
      else vprintfLoop fuel ap fmt (st.put [c] 1)

/-- `subcore_vprintf`: the return value and the characters passed to `putc`. One round for
every character and one for the terminator are enough. -/
def subcoreVprintf (fmt : CString) (ap : ℕ → Arg) : Except Fault (ℤ × List U8) :=
  (vprintfLoop (fmt.bytes.length + 1) ap (some fmt.bytes) .start).map fun st => (st.res, st.out)

end EspAmp.Printf
