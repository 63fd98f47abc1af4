import EspAmp.Printf
import EspAmp.SysInfo

/-!
# The panic dump of the subcore

`panic_subcore.c` writes a dump to shared memory, `panic_common.c` prints it on either
core. Both address the dump through its base, the end of the shared HP memory. The
exception frame and the bus-error registers are inputs, and so is the memory that the
stack is copied from, as it is at that moment. `RvExcFrame` comes from ESP-IDF: it is a
number of words that begins with the registers in the order of their labels. Printing is
the list of the calls that emit characters.
-/
namespace EspAmp.Panic
open ByteMemory Printf
open SysInfo (Target addr)

/-- A build for a chip, and the address of `__stack_top`. -/
structure Build where
  target : Target
  stackTop : U32

/-- `g_esp_amp_subcore_panic_dump` -/
def Build.dump (b : Build) : U32 := addr b.target.hpSharedMemEnd

def abortDetailsLength : ℕ := 248
def stackDumpLength : ℕ := 1024

/-- Offsets of the fields of `esp_amp_subcore_panic_dump_t`. -/
def isAbortOffset : ℕ := 0
def lengthOffset : ℕ := 4
def detailsOffset : ℕ := 8
def registerOffset : ℕ := detailsOffset + abortDetailsLength
def stackOffset : ℕ := registerOffset + 4 * 64

def Build.field (b : Build) (offset : ℕ) : U32 := b.dump + BitVec.ofNat 32 offset

/-- `RvExcFrame`. Every object is smaller than `PTRDIFF_MAX`. -/
structure Frame where
  words : List U32
  labelled : 37 ≤ words.length
  size : 4 * words.length < 2 ^ 31

def Frame.sp (f : Frame) : U32 := f.words.getD 2 0

/-- `RvExtraExcFrame` -/
structure ExtraFrame where
  ldpc0 : U32
  ldtval0 : U32
  ldpc1 : U32
  ldtval1 : U32
  stpc0 : U32
  sttval0 : U32
  stpc1 : U32
  sttval1 : U32
  stpc2 : U32
  sttval2 : U32

def ExtraFrame.words (e : ExtraFrame) : List U32 :=
  [e.ldpc0, e.ldtval0, e.ldpc1, e.ldtval1, e.stpc0, e.sttval0, e.stpc1, e.sttval1, e.stpc2,
    e.sttval2]

section Dump

/-- The number of stack bytes that are copied. -/
def recordedLength (b : Build) (frame : Frame) : ℕ :=
  min stackDumpLength (b.stackTop - frame.sp).toNat

/-- `subcore_panic_dump` up to its notification of the main core. -/
def subcorePanicDump (b : Build) (frame : Frame) (exframe : ExtraFrame) (stack m : Memory 32) :
    Memory 32 :=
  let m := write m (b.field registerOffset) (frame.words.flatMap bytes32)
  let m :=
    if b.target.lpCore then m
    else
      write m (b.field (registerOffset + 4 * frame.words.length)) (exframe.words.flatMap bytes32)
  let m := write32 m (b.field lengthOffset) (BitVec.ofNat 32 (recordedLength b frame))
  write m (b.field stackOffset) (read stack frame.sp (recordedLength b frame))

end Dump

section Print

/-- One call of `subcore_panic_print_str`, `_char` or `_hex`. -/
inductive Call where
  | str (s : List U8)
  | char (c : U8)
  | hex (h : U32)
deriving DecidableEq, Repr

def hexLoop : ℕ → U32 → List U8
  | 0, _ => []
  | rounds + 1, h =>
      let c := h.sshiftRight 28 &&& 0xf#32
      (if c < 10#32 then chr '0' + c.setWidth 8 else chr 'a' + c.setWidth 8 - 10) ::
        hexLoop rounds (h <<< 4)

/-- `subcore_panic_print_hex` -/
def hexChars (h : U32) : List U8 := hexLoop 8 h

def Call.chars : Call → List U8
  | str s => s
  | char c => [c]
  | hex h => hexChars h

def desc : List (List U8) :=
  ["MEPC    ", "RA      ", "SP      ", "GP      ", "TP      ", "T0      ", "T1      ", "T2      ",
    "S0/FP   ", "S1      ", "A0      ", "A1      ", "A2      ", "A3      ", "A4      ", "A5      ",
    "A6      ", "A7      ", "S2      ", "S3      ", "S4      ", "S5      ", "S6      ", "S7      ",
    "S8      ", "S9      ", "S10     ", "S11     ", "T3      ", "T4      ", "T5      ", "T6      ",
    "MSTATUS ", "MTVEC   ", "MCAUSE  ", "MTVAL   ", "MHARTID "].map ascii

def extraDesc : List (List U8) :=
  ["LDPC0   ", "LDTVAL0 ", "LDPC1   ", "LDTVAL1 ", "STPC0   ", "STTVAL0 ", "STPC1   ", "STTVAL1 ",
    "STPC2   ", "STTVAL2 "].map ascii

def reason (b : Build) : List (Option String) :=
  let shared := [some "Illegal instruction", some "Breakpoint", some "Load address misaligned",
    some "Load access fault", some "Store address misaligned", some "Store access fault"]
  if b.target.lpCore then [none, none] ++ shared
  else
    [some "Instruction address misaligned", some "Instruction access fault"] ++ shared ++
      [some "Environment call from U-mode", some "Environment call from S-mode", none,
        some "Environment call from M-mode", some "Instruction page fault",
        some "Load page fault", none, some "Store page fault"]

/-- `exccause_str` -/
def causeText (b : Build) (exccause : U32) : List U8 :=
  ascii (((reason b)[exccause.toNat]?.join).getD "Unhandled interrupt/Unknown cause")

def stringLoop (m : Memory 32) : ℕ → U32 → List U8
  | 0, _ => []
  | rounds + 1, a => if m a = 0 then [] else m a :: stringLoop m rounds (a + 1)

/-- A string in memory. The upper bytes of `stack_dump_length` are zero, so that a string
that begins in the dump ends within one turn of the address space. -/
def stringAt (m : Memory 32) (a : U32) : List U8 := stringLoop m (2 ^ 32) a

/-- The loop over a table of labels, the words of which begin at `x`. -/
def printTable (word : ℕ → U32) : ℕ → List (List U8) → List Call
  | _, [] => []
  | x, label :: labels =>
      [.str label, .str (ascii ": 0x"), .hex (word x),
        .char (if (x + 1) % 4 = 0 then chr '\n' else chr ' ')] ++ printTable word (x + 1) labels

/-- One line of `subcore_panic_print_stack`. -/
def stackLine (b : Build) (m : Memory 32) (sp : U32) (i : ℕ) : List Call :=
  [.hex (sp + BitVec.ofNat 32 i), .str (ascii ": ")] ++
    (List.range 8).flatMap fun y =>
      [.str (ascii "0x"), .hex (word32 m (b.field (stackOffset + i + 4 * y))),
        .char (if y = 7 then chr '\n' else chr ' ')]

def stackLines (b : Build) (m : Memory 32) (sp : U32) (length i : ℕ) : List Call :=
  if i < length then stackLine b m sp i ++ stackLines b m sp length (i + 32) else []
termination_by length - i

/-- `subcore_panic_print_stack` -/
def printStack (b : Build) (m : Memory 32) : List Call :=
  let sp := word32 m (b.field (registerOffset + 4 * 2))
  let length := min stackDumpLength (word32 m (b.field lengthOffset)).toNat
  .str (ascii "\n\nStack memory:\n") :: stackLines b m sp length 0 ++ [.str (ascii "\n")]

/-- What `frame_ints` of `subcore_panic_print_extra_regs` points to: the variable `exframe`
itself, a pointer that counts words, and then what lies behind this variable. -/
def extraInts (b : Build) (frameWords : ℕ) (behind : ℕ → U32) : ℕ → U32
  | 0 => b.field (registerOffset + 4 * (4 * frameWords))
  | x + 1 => behind x

/-- `subcore_panic_print` -/
def subcorePanicPrint (b : Build) (frameWords : ℕ) (behind : ℕ → U32) (m : Memory 32) :
    List Call :=
  let exccause := word32 m (b.field (registerOffset + 4 * 34))
  (if word32 m (b.field isAbortOffset) ≠ 0 then
      [.str (stringAt m (b.field detailsOffset)), .str (ascii "\n")]
    else
      [.str (ascii "Guru Meditation Error: ON Subcore panic'ed "), .str (causeText b exccause),
        .str (ascii "\n")]) ++
    [.str (ascii "Core 1 register dump:\n")] ++
    printTable (fun x => word32 m (b.field (registerOffset + 4 * x))) 0 desc ++
    (if b.target.lpCore then []
      else .str (ascii "\n") :: printTable (extraInts b frameWords behind) 0 extraDesc) ++
    printStack b m ++ [.str (ascii "ELF file SHA256: No SHA256 Embedded\n")]

end Print

section Abort

/-- The digits of `itods`, least significant first, while there is room for another one. -/
def itodsDigits : ℕ → List U8 → ℤ → ℕ → List U8 × ℕ
  | 0, str, _, pos => (str, pos)
  | room + 1, str, value, pos =>
      if 0 < value then
        itodsDigits room (str.set pos (chr '0' + BitVec.ofInt 8 (value.tmod 10))) (value.tdiv 10)
          (pos + 1)
      else (str, pos)

/-- `char temp = str[i]; str[i] = str[j]; str[j] = temp;` -/
def swap (str : List U8) (i j : ℕ) : List U8 := (str.set i (str.getD j 0)).set j (str.getD i 0)

/-- `itods` on a buffer of `max_len` bytes. -/
def itods (value : ℤ) (str : List U8) (maxLen : ℕ) : List U8 :=
  let str := (List.range maxLen).foldl (fun str i => str.set i 0) str
  if value = 0 then str.set 0 (chr '0')
  else
    let (str, pos) := itodsDigits (maxLen - 1) str value 0
    (List.range (pos / 2)).foldl (fun str i => swap str i (pos - 1 - i)) str

def itohsLoop : ℕ → U32 → List U8 → List U8
  | 0, _, str => str
  | rounds + 1, value, str =>
      itohsLoop rounds (value >>> 4) (lowerDigits.getD (value &&& 0xf#32).toNat 0 :: str)

/-- `itohs`: the eight digits in front of the terminator. -/
def itohs (value : U32) : List U8 := itohsLoop 8 value []

/-- The loop that copies strings to `abort_details` until the field is full. -/
def copyDetails (b : Build) : List (List U8) → ℕ → ℕ → Memory 32 → Memory 32 × ℕ
  | [], off, _, m => (m, off)
  | s :: strs, off, remLen, m =>
      let cpyLen := min s.length remLen
      let m := write m (b.field (detailsOffset + off)) (s.take cpyLen)
      if remLen - cpyLen = 0 then (m, off + cpyLen)
      else copyDetails b strs (off + cpyLen) (remLen - cpyLen) m

/-- The strings, their terminator and `is_abort`. -/
def storeDetails (b : Build) (strs : List (List U8)) (m : Memory 32) : Memory 32 :=
  let (m, off) := copyDetails b strs 0 (abortDetailsLength - 1) m
  let m := write m (b.field (detailsOffset + off)) [0]
  write32 m (b.field isAbortOffset) 1

def assertStr : List U8 := ascii "assert failed on subcore: "

/-- `__assert_func`, with what `lbuf` holds before it is written. -/
def assertFunc (b : Build) (file : CString) (line : ℤ) (func : Option CString) (expr : CString)
    (lbuf : List U8) (m : Memory 32) : Memory 32 :=
  let lbuf := itods line lbuf 6
  storeDetails b
    [assertStr, func.elim [8] CString.bytes, ascii " ", file.bytes, ascii ":",
      lbuf.takeWhile (· ≠ 0), ascii " (", expr.bytes, ascii ")"] m

/-- `__assert_func` of a build with silent assertions. -/
def assertFuncSilent (b : Build) (returnAddress : U32) (m : Memory 32) : Memory 32 :=
  let buff := assertStr ++ ascii "0x" ++ itohs (returnAddress - 4) ++ [0, 0]
  let m := write m (b.field detailsOffset) buff
  let m := write m (b.field (detailsOffset + (buff.length - 1))) [0]
  write32 m (b.field isAbortOffset) 1

/-- `esp_amp_subcore_abort` -/
def espAmpSubcoreAbort (b : Build) (returnAddress : U32) (m : Memory 32) : Memory 32 :=
  storeDetails b
    [ascii "abort() was called at PC 0x", itohs (returnAddress - 4), ascii " on subcore"] m

end Abort
end EspAmp.Panic
