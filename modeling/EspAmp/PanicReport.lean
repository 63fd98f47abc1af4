import EspAmp.Panic
import Mathlib.Data.List.GetD
import Mathlib.Data.Nat.Digits.Lemmas

/-!
# What the panic report shows

A reader of the report takes the word behind a label as the value of that register, and
the words of a stack line as those from its address on. The register block is printed
from where it was stored. The printer of the extra registers never looks into the dump: it
adds the size of the frame to a pointer to words, and then prints that pointer and what
lies behind it on its own stack. The stack is printed in lines of eight words, however
many were recorded.
-/
namespace EspAmp.Panic
open ByteMemory Printf

/-- What a printed word is the value of. -/
inductive Place where
  | label (text : List U8)
  | address (a : U32)
deriving DecidableEq

/-- The word that a label or the `0x` of a stack line announces. -/
def entry (line : U32) : List Call → Option (Place × U32)
  | .str label :: .str colon :: .hex v :: _ =>
      if colon = ascii ": 0x" then some (.label label, v) else none
  | .str zeroX :: .hex v :: _ => if zeroX = ascii "0x" then some (.address line, v) else none
  | _ => none

/-- The address of the next word of a stack line. -/
def nextLine (line : U32) : List Call → U32
  | .hex a :: .str colon :: _ => if colon = ascii ": " then a else line
  | .str zeroX :: .hex _ :: _ => if zeroX = ascii "0x" then line + 4 else line
  | _ => line

/-- The words of a report with their places. -/
def shown (line : U32) : List Call → List (Place × U32)
  | [] => []
  | call :: calls =>
      (entry line (call :: calls)).toList ++ shown (nextLine line (call :: calls)) calls

/-- The words that `subcore_panic_dump` records. -/
def recorded (b : Build) (frame : Frame) (exframe : ExtraFrame) (stack : Memory 32) :
    List (Place × U32) :=
  (desc.map Place.label).zip frame.words ++
    (if b.target.lpCore then [] else (extraDesc.map Place.label).zip exframe.words) ++
    (List.range (recordedLength b frame / 4)).map fun j =>
      (.address (frame.sp + BitVec.ofNat 32 (4 * j)),
        word32 stack (frame.sp + BitVec.ofNat 32 (4 * j)))

/-- The report shows every recorded word at its place and no other word, and the eight
digits of a word denote it. -/
def ReportShowsDump (b : Build) (frame : Frame) (exframe : ExtraFrame) (stack m : Memory 32)
    (behind : ℕ → U32) : Prop :=
  shown 0 (subcorePanicPrint b frame.words.length behind
      (subcorePanicDump b frame exframe stack m)) = recorded b frame exframe stack ∧
    ∀ v, (hexChars v).length = 8 ∧
      Nat.ofDigits 16 ((hexChars v).reverse.map lowerDigits.idxOf) = v.toNat

section Shown
variable {line : U32} {rest : List Call}

/-- A text announces nothing in front of two others. -/
theorem shown_str (s t u : List U8) :
    shown line (.str s :: .str t :: .str u :: rest) = shown line (.str t :: .str u :: rest) := by
  rw [shown, entry, nextLine, Option.toList_none, List.nil_append]
  all_goals simp

theorem shown_title {s : List U8} (hs : s ≠ ascii "0x") (a : U32) :
    shown line (.str s :: .hex a :: rest) = shown line (.hex a :: rest) := by
  rw [shown, entry, nextLine, if_neg hs, if_neg hs, Option.toList_none, List.nil_append]

theorem shown_address (a v : U32) :
    shown line (.hex a :: .str (ascii ": ") :: .str (ascii "0x") :: .hex v :: rest) =
      shown a (.str (ascii "0x") :: .hex v :: rest) := by
  have hcolon : ascii "0x" ≠ ascii ": 0x" := by decide
  rw [shown, entry, nextLine, if_pos rfl, Option.toList_none, List.nil_append, shown, entry,
    nextLine, if_neg hcolon, Option.toList_none, List.nil_append]
  all_goals simp

theorem shown_table (word : ℕ → U32) (x : ℕ) (labels : List (List U8)) :
    shown line (printTable word x labels ++ rest) =
      (labels.map Place.label).zip ((List.range' x labels.length).map word) ++
        shown line rest := by
  induction labels generalizing x with
  | nil => rfl
  | cons label labels ih =>
      have hcolon : ascii ": 0x" ≠ ascii "0x" := by decide
      simp only [printTable, List.cons_append, List.nil_append, shown, entry, nextLine, hcolon,
        if_true, if_false, Option.toList_some, Option.toList_none, ih, List.length_cons,
        List.range'_succ, List.map_cons, List.zip_cons_cons]

/-- The words of a stack line from the `y`th on. -/
theorem shown_words (value : ℕ → U32) (sep : ℕ → U8) (base : U32) (rest : List Call) (y n : ℕ) :
    shown (base + BitVec.ofNat 32 (4 * y)) (((List.range' y n).flatMap fun y =>
        [.str (ascii "0x"), .hex (value y), .char (sep y)]) ++ rest) =
      (List.range' y n).map (fun y => (.address (base + BitVec.ofNat 32 (4 * y)), value y)) ++
        shown (base + BitVec.ofNat 32 (4 * (y + n))) rest := by
  induction n generalizing y with
  | zero => rfl
  | succ n ih =>
      have hnext : base + BitVec.ofNat 32 (4 * y) + 4 =
          base + BitVec.ofNat 32 (4 * (y + 1)) := by
        rw [BitVec.add_assoc, Nat.mul_add, BitVec.ofNat_add]
        rfl
      simp only [List.range'_succ, List.flatMap_cons, List.cons_append, List.nil_append, shown,
        entry, nextLine, if_true, Option.toList_some, Option.toList_none, hnext, ih,
        List.map_cons]
      rw [Nat.add_right_comm, Nat.add_assoc y n 1]

theorem shown_stackLine (b : Build) (m : Memory 32) (sp : U32) (i : ℕ) :
    shown line (stackLine b m sp i ++ rest) =
      (List.range 8).map (fun y => (.address (sp + BitVec.ofNat 32 (i + 4 * y)),
        word32 m (b.field (stackOffset + (i + 4 * y))))) ++
        shown (sp + BitVec.ofNat 32 (i + 32)) rest := by
  have hwords := shown_words (fun y => word32 m (b.field (stackOffset + i + 4 * y)))
    (fun y => if y = 7 then chr '\n' else chr ' ') (sp + BitVec.ofNat 32 i) rest 0 8
  rw [← List.range_eq_range', Nat.mul_zero, BitVec.add_zero] at hwords
  have hstart : shown line (stackLine b m sp i ++ rest) =
      shown (sp + BitVec.ofNat 32 i) (((List.range 8).flatMap fun y =>
        [.str (ascii "0x"), .hex (word32 m (b.field (stackOffset + i + 4 * y))),
          .char (if y = 7 then chr '\n' else chr ' ')]) ++ rest) := by
    rw [stackLine, List.append_assoc, List.range_succ_eq_map, List.flatMap_cons]
    exact shown_address ..
  rw [hstart, hwords]
  simp only [BitVec.add_assoc, ← BitVec.ofNat_add, Nat.add_assoc, Nat.zero_add, Nat.reduceMul]

/-- The lines show whole lines of words, up to the one that holds the last byte. -/
theorem shown_stackLines (line : U32) (b : Build) (m : Memory 32) (sp : U32) (length i : ℕ)
    (s t : List U8) :
    shown line (stackLines b m sp length i ++ [.str s, .str t]) =
      (List.range (8 * ((length - i + 31) / 32))).map fun j =>
        (.address (sp + BitVec.ofNat 32 (i + 4 * j)),
          word32 m (b.field (stackOffset + (i + 4 * j)))) := by
  fun_induction stackLines b m sp length i generalizing line with
  | case1 i hi ih =>
      have hcount : 8 * ((length - i + 31) / 32) = 8 + 8 * ((length - (i + 32) + 31) / 32) := by
        omega
      rw [List.append_assoc, shown_stackLine, ih, hcount, List.range_add, List.map_append,
        List.map_map]
      simp only [Function.comp_def, Nat.mul_add, Nat.add_assoc, Nat.reduceMul]
  | case2 i hi =>
      have hcount : 8 * ((length - i + 31) / 32) = 0 := by omega
      rw [hcount]
      rfl

/-- A table of registers behind texts, which announce nothing. -/
theorem shown_texts_table (texts : List (List U8)) (word : ℕ → U32) (label : List U8)
    (labels : List (List U8)) :
    shown line (texts.map Call.str ++ (printTable word 0 (label :: labels) ++ rest)) =
      ((label :: labels).map Place.label).zip ((List.range (labels.length + 1)).map word) ++
        shown line rest := by
  induction texts with
  | nil => rw [List.range_eq_range']; exact shown_table word 0 (label :: labels)
  | cons s texts ih =>
      rw [← ih]
      match texts with
      | [] => exact shown_str s label (ascii ": 0x")
      | [t] => exact shown_str s t label
      | t :: u :: _ => exact shown_str s t u

theorem shown_printStack (line : U32) (b : Build) (m : Memory 32) (s : List U8) :
    shown line (printStack b m ++ [.str s]) =
      (List.range
          (8 * ((min stackDumpLength (word32 m (b.field lengthOffset)).toNat + 31) / 32))).map
        fun j => (.address (word32 m (b.field (registerOffset + 4 * 2)) + BitVec.ofNat 32 (4 * j)),
          word32 m (b.field (stackOffset + 4 * j))) := by
  have htitle : ascii "\n\nStack memory:\n" ≠ ascii "0x" := by decide
  have hstack := shown_stackLines line b m (word32 m (b.field (registerOffset + 4 * 2)))
    (min stackDumpLength (word32 m (b.field lengthOffset)).toNat) 0 (ascii "\n") s
  simp only [Nat.zero_add, Nat.sub_zero] at hstack
  rw [← hstack, printStack, List.append_assoc, List.cons_append]
  unfold stackLines
  split_ifs with hlength
  · exact shown_title htitle _
  · exact shown_str ..

/-- The words that a report shows of the memory that it is printed from. -/
theorem shown_print (b : Build) (frameWords : ℕ) (behind : ℕ → U32) (m : Memory 32) :
    shown 0 (subcorePanicPrint b frameWords behind m) =
      (desc.map Place.label).zip
          ((List.range 37).map fun x => word32 m (b.field (registerOffset + 4 * x))) ++
        ((if b.target.lpCore then []
          else (extraDesc.map Place.label).zip
            ((List.range 10).map (extraInts b frameWords behind))) ++
        (List.range
            (8 * ((min stackDumpLength (word32 m (b.field lengthOffset)).toNat + 31) / 32))).map
          fun j =>
            (.address (word32 m (b.field (registerOffset + 4 * 2)) + BitVec.ofNat 32 (4 * j)),
              word32 m (b.field (stackOffset + 4 * j)))) := by
  have htitle : ∃ texts : List (List U8),
      (if word32 m (b.field isAbortOffset) ≠ 0 then
          [.str (stringAt m (b.field detailsOffset)), .str (ascii "\n")]
        else
          [.str (ascii "Guru Meditation Error: ON Subcore panic'ed "),
            .str (causeText b (word32 m (b.field (registerOffset + 4 * 34)))),
            .str (ascii "\n")]) ++ [.str (ascii "Core 1 register dump:\n")] =
        texts.map Call.str := by
    split_ifs
    · exact ⟨[_, _, _], rfl⟩
    · exact ⟨[_, _, _, _], rfl⟩
  obtain ⟨texts, htexts⟩ := htitle
  rw [subcorePanicPrint, htexts]
  simp only [List.append_assoc]
  rw [desc, List.map_cons, shown_texts_table,
    ← shown_printStack 0 b m (ascii "ELF file SHA256: No SHA256 Embedded\n")]
  congr 1
  split_ifs
  · rfl
  · exact shown_texts_table [ascii "\n"] _ _ _

end Shown

section Memory
variable {b : Build} {frame : Frame} {exframe : ExtraFrame} {stack m : Memory 32}

theorem field_add (b : Build) (i j : ℕ) :
    b.field i + BitVec.ofNat 32 j = b.field (i + j) := by
  rw [Build.field, Build.field, BitVec.add_assoc, ← BitVec.ofNat_add]

theorem field_apart {i n j k : ℕ} (hij : i + n ≤ j) (hend : j + k ≤ 2 ^ 32) :
    Apart (b.field i) n (b.field j) k := apart_of_offsets hij hend

theorem recordedLength_le (b : Build) (frame : Frame) : recordedLength b frame ≤ 1024 :=
  min_le_left ..

/-- The stack is copied behind the other fields. -/
theorem word32_stack_write {i n : ℕ} (c : U32) (hi : i + 4 ≤ stackOffset) (hn : n ≤ 1024) :
    word32 (write m (b.field stackOffset) (read stack c n)) (b.field i) =
      word32 m (b.field i) := by
  have hend : stackOffset + n ≤ 2 ^ 32 := by
    unfold stackOffset registerOffset detailsOffset abortDetailsLength
    omega
  refine word32_congr fun x hx => write_of_not_within ?_
  rw [length_read]
  exact field_apart hi hend x hx

theorem dump_length : word32 (subcorePanicDump b frame exframe stack m) (b.field lengthOffset) =
    BitVec.ofNat 32 (recordedLength b frame) := by
  unfold subcorePanicDump
  rw [word32_stack_write _ (by decide) (recordedLength_le b frame), word32_write32 (by decide)]

theorem dump_register {x : ℕ} (hx : x < 37) :
    word32 (subcorePanicDump b frame exframe stack m) (b.field (registerOffset + 4 * x)) =
      frame.words.getD x 0 := by
  have hlabelled := frame.labelled
  have hsize := frame.size
  have hoff : registerOffset = 256 := rfl
  have hframe : word32 (write m (b.field registerOffset) (frame.words.flatMap bytes32))
      (b.field (registerOffset + 4 * x)) = frame.words.getD x 0 := by
    rw [← field_add, word32_write_words _ (by omega) (by omega), List.getD_eq_getElem]
  unfold subcorePanicDump
  rw [word32_stack_write _ (by unfold stackOffset; omega) (recordedLength_le b frame),
    word32_write32_apart (field_apart (by unfold lengthOffset; omega) (by omega)).symm]
  split_ifs
  · exact hframe
  · rw [← hframe]
    refine word32_congr fun y hy => write_of_not_within ?_
    have hend : registerOffset + 4 * frame.words.length + 4 * exframe.words.length ≤ 2 ^ 32 := by
      have hextra : exframe.words.length = 10 := rfl
      omega
    rw [length_flatMap_bytes32]
    exact field_apart (by omega) hend y hy

theorem dump_stack {j : ℕ} (hj : 4 * j + 4 ≤ recordedLength b frame) :
    word32 (subcorePanicDump b frame exframe stack m) (b.field (stackOffset + 4 * j)) =
      word32 stack (frame.sp + BitVec.ofNat 32 (4 * j)) := by
  have hlen := recordedLength_le b frame
  rw [← field_add]
  exact word32_write_read hj (by omega)

/-- The dump leaves `is_abort` and the details as they are. -/
theorem dump_header {i n : ℕ} (hend : i + n ≤ registerOffset)
    (hlength : i + n ≤ lengthOffset ∨ lengthOffset + 4 ≤ i) {x : U32}
    (hx : Within (b.field i) n x) : subcorePanicDump b frame exframe stack m x = m x := by
  have hlen := recordedLength_le b frame
  have hsize := frame.size
  have hoff : registerOffset = 256 := rfl
  have hoff' : stackOffset = 512 := rfl
  have hstack : ¬ Within (b.field stackOffset)
      (read stack frame.sp (recordedLength b frame)).length x := by
    rw [length_read]
    exact field_apart (by omega) (by omega) x hx
  have hframe : ¬ Within (b.field registerOffset) (frame.words.flatMap bytes32).length x := by
    rw [length_flatMap_bytes32]
    exact field_apart (by omega) (by omega) x hx
  have hextra : ¬ Within (b.field (registerOffset + 4 * frame.words.length))
      (exframe.words.flatMap bytes32).length x := by
    have hwords : exframe.words.length = 10 := rfl
    rw [length_flatMap_bytes32, hwords]
    exact field_apart (by omega) (by omega) x hx
  have hfield : ¬ Within (b.field lengthOffset) 4 x := by
    rcases hlength with h | h
    · exact field_apart h (by decide) x hx
    · exact (field_apart h (by omega)).symm x hx
  unfold subcorePanicDump
  rw [write_of_not_within hstack, write32_of_not_within hfield]
  split_ifs
  · exact write_of_not_within hframe
  · rw [write_of_not_within hextra, write_of_not_within hframe]

end Memory

section Hex

/-- The leftmost digit of a word. -/
theorem toNat_leftmost (h : U32) : (h.sshiftRight 28 &&& 0xf#32).toNat = h.toNat / 2 ^ 28 := by
  have hlt := h.isLt
  have hmask : (h.sshiftRight 28 &&& 0xf#32).toNat = (h.sshiftRight 28).toNat % 2 ^ 4 := by
    rw [BitVec.toNat_and]
    exact Nat.and_two_pow_sub_one_eq_mod _ 4
  rw [hmask]
  cases hmsb : h.msb with
  | false =>
      rw [BitVec.sshiftRight_eq_of_msb_false hmsb, BitVec.toNat_ushiftRight,
        Nat.shiftRight_eq_div_pow]
      omega
  | true =>
      rw [BitVec.sshiftRight_eq_of_msb_true hmsb, BitVec.toNat_not, BitVec.toNat_ushiftRight,
        BitVec.toNat_not, Nat.shiftRight_eq_div_pow]
      omega

theorem idxOf_digit (c : U32) (hc : c.toNat < 16) :
    lowerDigits.idxOf (if c < 10#32 then chr '0' + c.setWidth 8
      else chr 'a' + c.setWidth 8 - 10) = c.toNat := by
  obtain ⟨n, rfl⟩ : ∃ n : Fin 16, c = BitVec.ofNat 32 n :=
    ⟨⟨c.toNat, hc⟩, by rw [BitVec.ofNat_toNat, BitVec.setWidth_eq]⟩
  revert n
  decide

theorem length_hexLoop (n : ℕ) (h : U32) : (hexLoop n h).length = n := by
  induction n generalizing h with
  | zero => rfl
  | succ n ih => rw [hexLoop, List.length_cons, ih]

/-- The digits of the leftmost part of a word. -/
theorem ofDigits_hexLoop (n : ℕ) (h : U32) :
    Nat.ofDigits 16 ((hexLoop n h).reverse.map lowerDigits.idxOf) = h.toNat * 16 ^ n / 2 ^ 32 := by
  induction n generalizing h with
  | zero => simp [hexLoop, Nat.div_eq_of_lt h.isLt]
  | succ n ih =>
      have hdigit := toNat_leftmost h
      have hlt := h.isLt
      have hshift : (h <<< 4).toNat = h.toNat * 16 % 2 ^ 32 := by
        rw [BitVec.toNat_shiftLeft, Nat.shiftLeft_eq]
      have hfront : h.toNat * 16 = 2 ^ 32 * (h.toNat / 2 ^ 28) + h.toNat * 16 % 2 ^ 32 := by omega
      have hsplit : h.toNat * 16 ^ (n + 1) =
          2 ^ 32 * (16 ^ n * (h.toNat / 2 ^ 28)) + h.toNat * 16 % 2 ^ 32 * 16 ^ n := by
        calc h.toNat * 16 ^ (n + 1) = h.toNat * 16 * 16 ^ n := by rw [Nat.pow_succ]; ring
          _ = (2 ^ 32 * (h.toNat / 2 ^ 28) + h.toNat * 16 % 2 ^ 32) * 16 ^ n := by rw [← hfront]
          _ = _ := by ring
      rw [hexLoop, List.reverse_cons, List.map_append, Nat.ofDigits_append, ih, hshift,
        List.length_map, List.length_reverse, length_hexLoop, List.map_singleton,
        Nat.ofDigits_singleton, idxOf_digit _ (by rw [hdigit]; omega), hdigit, hsplit,
        Nat.mul_add_div (by decide), Nat.add_comm]

theorem ofDigits_hexChars (v : U32) :
    Nat.ofDigits 16 ((hexChars v).reverse.map lowerDigits.idxOf) = v.toNat := by
  rw [hexChars, ofDigits_hexLoop]
  exact Nat.mul_div_cancel _ (by decide)

end Hex

section Report
variable {b : Build} {frame : Frame} {exframe : ExtraFrame} {stack m : Memory 32}
  {behind : ℕ → U32}

/-- The stack words of the report and those of the dump. -/
theorem stack_shown_iff (b : Build) (frame : Frame) (exframe : ExtraFrame) (stack m : Memory 32) :
    (List.range (8 * ((recordedLength b frame + 31) / 32))).map (fun j =>
        (Place.address (frame.sp + BitVec.ofNat 32 (4 * j)),
          word32 (subcorePanicDump b frame exframe stack m) (b.field (stackOffset + 4 * j)))) =
      (List.range (recordedLength b frame / 4)).map (fun j =>
        (.address (frame.sp + BitVec.ofNat 32 (4 * j)),
          word32 stack (frame.sp + BitVec.ofNat 32 (4 * j)))) ↔
      stackDumpLength ≤ (b.stackTop - frame.sp).toNat ∨ 32 ∣ (b.stackTop - frame.sp).toNat := by
  have hcount : 8 * ((recordedLength b frame + 31) / 32) = recordedLength b frame / 4 ↔
      stackDumpLength ≤ (b.stackTop - frame.sp).toNat ∨ 32 ∣ (b.stackTop - frame.sp).toNat := by
    unfold recordedLength stackDumpLength
    omega
  rw [← hcount]
  constructor
  · intro h
    have hlength := congrArg List.length h
    rwa [List.length_map, List.length_map, List.length_range, List.length_range] at hlength
  · intro h
    rw [h]
    apply List.map_congr_left
    intro j hj
    rw [List.mem_range] at hj
    rw [dump_stack (by omega)]

theorem extra_shown_iff :
    (extraDesc.map Place.label).zip
        ((List.range 10).map (extraInts b frame.words.length behind)) =
      (extraDesc.map Place.label).zip exframe.words ↔
      exframe.words = b.field (registerOffset + 4 * (4 * frame.words.length)) ::
        (List.range 9).map behind := by
  have hints : (List.range 10).map (extraInts b frame.words.length behind) =
      b.field (registerOffset + 4 * (4 * frame.words.length)) :: (List.range 9).map behind := rfl
  rw [hints]
  constructor
  · intro h
    have hwords := congrArg (List.map Prod.snd) h
    rw [List.map_snd_zip (le_refl 10), List.map_snd_zip (le_refl 10)] at hwords
    exact hwords.symm
  · intro h
    rw [h]

theorem registers_shown :
    (desc.map Place.label).zip ((List.range 37).map fun x =>
        word32 (subcorePanicDump b frame exframe stack m) (b.field (registerOffset + 4 * x))) =
      (desc.map Place.label).zip frame.words := by
  have hlabelled := frame.labelled
  have hdesc : (desc.map Place.label).length = 37 := rfl
  apply List.ext_getElem
  · simp only [List.length_zip, hdesc, List.length_map, List.length_range]
    omega
  · intro x hx _
    rw [List.length_zip, hdesc] at hx
    simp only [List.getElem_zip, List.getElem_map, List.getElem_range]
    rw [dump_register (by omega), List.getD_eq_getElem]

theorem sp_shown :
    word32 (subcorePanicDump b frame exframe stack m) (b.field (registerOffset + 4 * 2)) =
      frame.sp := dump_register (by decide)

theorem length_shown : min stackDumpLength
    (word32 (subcorePanicDump b frame exframe stack m) (b.field lengthOffset)).toNat =
      recordedLength b frame := by
  have hlen := recordedLength_le b frame
  rw [dump_length, BitVec.toNat_ofNat, Nat.mod_eq_of_lt (by omega)]
  exact min_eq_right hlen

theorem shown_eq_recorded_iff :
    shown 0 (subcorePanicPrint b frame.words.length behind
        (subcorePanicDump b frame exframe stack m)) = recorded b frame exframe stack ↔
      (stackDumpLength ≤ (b.stackTop - frame.sp).toNat ∨
        32 ∣ (b.stackTop - frame.sp).toNat) ∧
      (b.target.lpCore = false → exframe.words =
        b.field (registerOffset + 4 * (4 * frame.words.length)) :: (List.range 9).map behind) := by
  rw [shown_print, recorded, registers_shown, sp_shown, length_shown, List.append_assoc,
    List.append_cancel_left_eq, ← stack_shown_iff b frame exframe stack m, ← extra_shown_iff]
  cases hcore : b.target.lpCore with
  | true => simp
  | false =>
      have hlength : ((extraDesc.map Place.label).zip
          ((List.range 10).map (extraInts b frame.words.length behind))).length =
            ((extraDesc.map Place.label).zip exframe.words).length := rfl
      rw [if_neg Bool.false_ne_true, if_neg Bool.false_ne_true,
        List.append_eq_append_iff_of_size_eq_left hlength, and_comm, forall_prop_of_true rfl]

/-- The report is exact when the recorded stack fills its lines. On an HP core the extra
registers would also have to hold the address that is printed and the words behind it. -/
theorem report_shows_dump_iff (b : Build) (frame : Frame) (exframe : ExtraFrame)
    (stack m : Memory 32) (behind : ℕ → U32) :
    ReportShowsDump b frame exframe stack m behind ↔
      (stackDumpLength ≤ (b.stackTop - frame.sp).toNat ∨
        32 ∣ (b.stackTop - frame.sp).toNat) ∧
      (b.target.lpCore = false → exframe.words =
        b.field (registerOffset + 4 * (4 * frame.words.length)) :: (List.range 9).map behind) := by
  rw [ReportShowsDump, shown_eq_recorded_iff, and_iff_left]
  intro v
  exact ⟨length_hexLoop 8 v, ofDigits_hexChars v⟩

/-- Four words are recorded, and the line that shows them goes on with four words of an
earlier panic. On an HP core the extra registers are lost even when the line is full. -/
theorem report_differs_from_dump :
    ¬ ReportShowsDump ⟨.esp32c6, 0x50003ff0⟩
      ⟨[0x50000400, 0, 0x50003fe0] ++ List.replicate 34 0, by decide, by decide⟩
      ⟨0, 0, 0, 0, 0, 0, 0, 0, 0, 0⟩ (fun _ => 0) (fun _ => 0xaa) (fun _ => 0) ∧
    ¬ ReportShowsDump ⟨.esp32p4, 0x4ff40000⟩
      ⟨[0x4ff10400, 0, 0x4ff3ffe0] ++ List.replicate 34 0, by decide, by decide⟩
      ⟨0x4ff10400, 0xdeadbeef, 0, 0, 0, 0, 0, 0, 0, 0⟩ (fun _ => 0) (fun _ => 0) (fun _ => 0) := by
  constructor
  · intro h
    have hstack := (shown_eq_recorded_iff.mp h.1).1
    revert hstack
    decide
  · intro h
    have hextra := (shown_eq_recorded_iff.mp h.1).2 rfl
    revert hextra
    decide

end Report
end EspAmp.Panic
