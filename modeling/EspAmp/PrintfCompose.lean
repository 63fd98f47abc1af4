import EspAmp.PrintfPieces
import Mathlib.Algebra.Order.BigOperators.Group.List

/-!
# Whether formatted output is compositional

Every piece other than `%%` assigns what the shared part reads, so that it emits the same
characters in every state. The shared part also runs behind `%%`, where `length` is what
the piece in front left of it; and neither the percent sign nor the prefix of `%p` is
counted.
-/
namespace EspAmp.Printf
open ByteMemory

/-- A round that emits some characters and leaves `missed` of them uncounted. -/
structure Advances (st st' : State) (cs : List U8) (missed : ℤ) : Prop where
  buf : st.buf.length = 64 → st'.buf.length = 64
  out : st'.out = st.out ++ cs
  res : int32 st.res = st.res → st'.res = int32 (st.res + (cs.length - missed))

namespace Advances
variable {st st' st'' : State} {cs cs' : List U8} {missed missed' : ℤ}

theorem refl (st : State) : Advances st st [] 0 where
  buf := id
  out := (List.append_nil _).symm
  res hres := by simpa using hres.symm

theorem trans (h : Advances st st' cs missed) (h' : Advances st' st'' cs' missed') :
    Advances st st'' (cs ++ cs') (missed + missed') where
  buf hbuf := h'.buf (h.buf hbuf)
  out := by rw [h'.out, h.out, List.append_assoc]
  res hres := by
    have hmid : int32 st'.res = st'.res := by
      rw [h.res hres]
      simpa using int32_add (st.res + (cs.length - missed)) 0
    rw [h'.res hmid, h.res hres, int32_add, List.length_append]
    congr 1
    push_cast
    ring

end Advances

/-- What a directive emits. -/
def Letter.emitted (spec : Spec) (arg : Arg) : Letter → List U8
  | .d => numberText spec (number spec arg .signed)
  | .u => numberText spec (number spec arg .unsigned)
  | .x => numberText spec (number spec arg .hexLower)
  | .X => numberText spec (number spec arg .hexUpper)
  | .p =>
      ascii "0x" ++ numberText { spec with islong := true, zeroFill := true, leftPrec := 8 }
        (number { spec with islong := true } arg .hexLower)
  | .s => stringText spec arg
  | .c => [arg.int.setWidth 8]

/-- What a piece emits when `length` is zero. -/
def Piece.emitted : Piece → List U8
  | literal c _ => [c]
  | percent => ascii "%"
  | directive d arg => d.letter.emitted d.spec arg

/-- The characters of a piece that the return value leaves out. -/
def Piece.missed : Piece → ℕ
  | literal _ _ => 0
  | percent => 1
  | directive d _ => if d.letter = .p then 2 else 0

section Rounds
variable {st st' : State}

theorem putNumber_advances (spec : Spec) (n : Number) (hradix : 10 ≤ n.radix)
    (hbuf : st.buf.length = 64) :
    ∃ st', putNumber spec n st = .ok st' ∧ Advances st st' (numberText spec n) 0 := by
  refine ⟨_, putNumber_eq hradix hbuf, fun _ => length_numberBuf hradix hbuf, rfl, fun _ => ?_⟩
  rw [sub_zero]
  rfl

theorem convert_advances (spec : Spec) (letter : Letter) (arg : Arg)
    (hbuf : st.buf.length = 64) :
    ∃ st', convert spec letter.char arg st = .ok st' ∧
      Advances st st' (letter.emitted spec arg) (if letter = .p then 2 else 0 : ℕ) := by
  cases letter with
  | d => exact putNumber_advances spec _ (number_radix spec arg .signed) hbuf
  | u => exact putNumber_advances spec _ (number_radix spec arg .unsigned) hbuf
  | x => exact putNumber_advances spec _ (number_radix spec arg .hexLower) hbuf
  | X => exact putNumber_advances spec _ (number_radix spec arg .hexUpper) hbuf
  | p =>
      obtain ⟨st', hput, hadv⟩ := putNumber_advances
        { spec with islong := true, zeroFill := true, leftPrec := 8 } _
        (number_radix { spec with islong := true } arg .hexLower)
        (show (st.put (ascii "0x") 0).buf.length = 64 from hbuf)
      have hprefix : Advances st (st.put (ascii "0x") 0) (ascii "0x") 2 := ⟨id, rfl, fun _ => rfl⟩
      exact ⟨st', hput, hprefix.trans hadv⟩
  | s =>
      refine ⟨_, putString_eq arg, id, rfl, fun _ => ?_⟩
      rw [if_neg (by decide), Nat.cast_zero, sub_zero]
      rfl
  | c => exact ⟨_, rfl, id, rfl, fun _ => rfl⟩

/-- Every piece other than `%%` emits the same characters in every state. -/
theorem pieceRound_advances {p : Piece} (hp : p ≠ .percent) (hbuf : st.buf.length = 64) :
    ∃ st', pieceRound st p = .ok st' ∧ Advances st st' p.emitted p.missed := by
  cases p with
  | literal c hc => exact ⟨_, rfl, id, rfl, fun _ => rfl⟩
  | percent => exact absurd rfl hp
  | directive d arg => exact convert_advances d.spec d.letter arg hbuf

theorem finish_advances {spec : Spec} {negative : Bool}
    (hfinish : finish spec negative st = .ok st') : ∃ cs, Advances st st' cs 0 := by
  cases hread : readChars st.length.toNat st.cp with
  | error e => simp [finish, hread, bind, Except.bind] at hfinish
  | ok r =>
      rw [finish_eq hread] at hfinish
      obtain rfl := Except.ok.inj hfinish
      refine ⟨layout spec negative st.length r.1, id, rfl, fun _ => ?_⟩
      rw [sub_zero]
      rfl

/-- A round that ends leaves out a known number of characters. -/
theorem pieceRound_missed {p : Piece} (hbuf : st.buf.length = 64)
    (hround : pieceRound st p = .ok st') : ∃ cs, Advances st st' cs p.missed := by
  by_cases hp : p = .percent
  · subst hp
    have hsign : Advances st (st.put (ascii "%") 0) (ascii "%") 1 := ⟨id, rfl, fun _ => rfl⟩
    obtain ⟨cs, hcs⟩ := finish_advances hround
    exact ⟨ascii "%" ++ cs, hsign.trans hcs⟩
  · obtain ⟨st₁, hround₁, hadv⟩ := pieceRound_advances hp hbuf
    obtain rfl := Except.ok.inj (hround₁.symm.trans hround)
    exact ⟨p.emitted, hadv⟩

theorem runPieces_missed {ps : List Piece} (hbuf : st.buf.length = 64)
    (hrun : runPieces ps st = .ok st') :
    ∃ cs, Advances st st' cs ((ps.map Piece.missed).sum : ℕ) := by
  induction ps generalizing st with
  | nil =>
      obtain rfl := Except.ok.inj hrun
      exact ⟨[], .refl st⟩
  | cons p ps ih =>
      cases hround : pieceRound st p with
      | error e => simp [runPieces, hround, Except.bind] at hrun
      | ok st₁ =>
          rw [runPieces, hround, Except.bind] at hrun
          obtain ⟨cs, hcs⟩ := pieceRound_missed hbuf hround
          obtain ⟨cs', hcs'⟩ := ih (hcs.buf hbuf) hrun
          refine ⟨cs ++ cs', ?_⟩
          rw [List.map_cons, List.sum_cons, Nat.cast_add]
          exact hcs.trans hcs'

theorem runPieces_emitted {ps : List Piece} (hps : Piece.percent ∉ ps)
    (hbuf : st.buf.length = 64) :
    ∃ st', runPieces ps st = .ok st' ∧
      Advances st st' (ps.flatMap Piece.emitted) ((ps.map Piece.missed).sum : ℕ) := by
  induction ps generalizing st with
  | nil => exact ⟨st, rfl, .refl st⟩
  | cons p ps ih =>
      rw [List.mem_cons, not_or] at hps
      obtain ⟨st₁, hround, hadv⟩ := pieceRound_advances (Ne.symm hps.1) hbuf
      obtain ⟨st₂, hrun, hadv₂⟩ := ih hps.2 (hadv.buf hbuf)
      refine ⟨st₂, by rw [runPieces, hround, Except.bind, hrun], ?_⟩
      rw [List.map_cons, List.sum_cons, Nat.cast_add, List.flatMap_cons]
      exact hadv.trans hadv₂

end Rounds

theorem Piece.missed_le (p : Piece) : p.missed ≤ p.text.length := by
  cases p with
  | literal c hc => exact Nat.zero_le _
  | percent => decide
  | directive d arg =>
      rw [missed, text, Directive.body]
      split_ifs
      · simp only [List.length_cons, List.length_append]
        omega
      · exact Nat.zero_le _

namespace Format
variable (f : Format) (rest : ℕ → Arg)

def missed : ℕ := (f.pieces.map Piece.missed).sum

theorem missed_lt : f.missed < 2 ^ 31 := by
  have hle : f.missed ≤ (f.pieces.flatMap Piece.text).length := by
    rw [missed, List.length_flatMap]
    exact List.sum_le_sum fun p _ => p.missed_le
  have hsize := f.size
  omega

theorem missed_eq_zero_iff :
    f.missed = 0 ↔ Piece.percent ∉ f.pieces ∧
      ∀ d arg, Piece.directive d arg ∈ f.pieces → d.letter ≠ .p := by
  rw [missed, List.sum_eq_zero_iff_forall_eq_nat, List.forall_mem_map]
  constructor
  · intro h
    refine ⟨fun hp => absurd (h _ hp) (by decide), fun d arg hd hletter => ?_⟩
    simpa [Piece.missed, hletter] using h _ hd
  · rintro ⟨hpercent, hpointer⟩ p hp
    cases p with
    | literal c hc => rfl
    | percent => exact absurd hp hpercent
    | directive d arg => exact if_neg (hpointer d arg hp)

theorem print_of_no_percent (hf : Piece.percent ∉ f.pieces) :
    f.print rest = .ok (int32 ((f.pieces.flatMap Piece.emitted).length - f.missed),
      f.pieces.flatMap Piece.emitted) := by
  obtain ⟨st, hrun, hadv⟩ := runPieces_emitted hf (show State.start.buf.length = 64 from rfl)
  have hout : st.out = f.pieces.flatMap Piece.emitted := hadv.out
  have hres := hadv.res rfl
  rw [print_eq, hrun, Except.map, hout, hres]
  simp [State.start, missed]

/-- The return value of a call that ends. -/
theorem print_missed {ret : ℤ} {out : List U8} (hprint : f.print rest = .ok (ret, out)) :
    ret = int32 (out.length - f.missed) := by
  rw [print_eq] at hprint
  cases hrun : runPieces f.pieces .start with
  | error e => simp [hrun, Except.map] at hprint
  | ok st =>
      rw [hrun, Except.map] at hprint
      obtain ⟨rfl, rfl⟩ := Prod.mk.inj (Except.ok.inj hprint)
      obtain ⟨cs, hadv⟩ := runPieces_missed (show State.start.buf.length = 64 from rfl) hrun
      have hout : st.out = cs := hadv.out
      rw [hadv.res rfl, hout]
      simp [State.start, missed]

/-- The format of one of the pieces. -/
def single {p : Piece} (hp : p ∈ f.pieces) : Format where
  pieces := [p]
  size := by
    refine lt_of_le_of_lt (Nat.add_le_add_right ?_ 2) f.size
    rw [List.flatMap_singleton]
    exact (List.sublist_flatten_of_mem (List.mem_map_of_mem hp)).length_le

/-- Every piece alone emits some characters, `%%` only a percent sign, and the whole format
emits these one after the other and returns their number, as an `int`. -/
def Composes : Prop :=
  ∃ emitted : Piece → List U8,
    (∀ p, ∀ hp : p ∈ f.pieces, ∃ ret, (f.single hp).print rest = .ok (ret, emitted p)) ∧
    (Piece.percent ∈ f.pieces → emitted .percent = ascii "%") ∧
    f.print rest =
      .ok (int32 (f.pieces.flatMap emitted).length, f.pieces.flatMap emitted)

end Format

/-- Formatted output is compositional exactly for the formats without `%%` and `%p`. -/
theorem formatted_output_composes_iff (f : Format) (rest : ℕ → Arg) :
    f.Composes rest ↔ Piece.percent ∉ f.pieces ∧
      ∀ d arg, Piece.directive d arg ∈ f.pieces → d.letter ≠ .p := by
  rw [← f.missed_eq_zero_iff]
  constructor
  · rintro ⟨emitted, -, -, hprint⟩
    by_contra hmissed
    have hret := f.print_missed rest hprint
    have hlt := f.missed_lt
    exact int32_ne (by omega) (by omega) hret.symm
  · intro hmissed
    have hpercent := (f.missed_eq_zero_iff.mp hmissed).1
    refine ⟨Piece.emitted, fun p hp => ?_, fun hp => absurd hp hpercent, ?_⟩
    · have hsingle : Piece.percent ∉ (f.single hp).pieces := by
        intro hmem
        obtain rfl := List.mem_singleton.mp hmem
        exact hpercent hp
      have hprint := (f.single hp).print_of_no_percent rest hsingle
      rw [show (f.single hp).pieces = [p] from rfl, List.flatMap_singleton] at hprint
      exact ⟨_, hprint⟩
    · rw [f.print_of_no_percent rest hpercent, hmissed, Nat.cast_zero, sub_zero]

/-- A directive without flags, width, precision and modifier. -/
def plainDirective (letter : Letter) : Directive where
  minus := false
  zero := false
  width := []
  width_head := by decide
  precision := none
  modifier := .none
  letter := letter

def fiveArg : Arg := ⟨5, 5, 5, none⟩

/-- The format `%d%%` with the argument 5. -/
def numberPercent : Format where
  pieces := [.directive (plainDirective .d) fiveArg, .percent]
  size := by decide

/-- A zero follows the percent sign, and the percent sign is not counted. -/
theorem percent_behind_number_is_padded :
    numberPercent.print (fun _ => fiveArg) = .ok (2, ascii "5%0") ∧
      ¬ numberPercent.Composes (fun _ => fiveArg) := by
  have hwhole : numberPercent.print (fun _ => fiveArg) = .ok (2, ascii "5%0") := by rfl
  refine ⟨hwhole, ?_⟩
  rintro ⟨emitted, halone, hpercent, hprint⟩
  obtain ⟨ret, hnumber⟩ := halone (.directive (plainDirective .d) fiveArg) (List.mem_cons_self ..)
  have hfive : emitted (.directive (plainDirective .d) fiveArg) = ascii "5" := by
    have hone : (numberPercent.single (List.mem_cons_self ..)).print (fun _ => fiveArg) =
        .ok (1, ascii "5") := by rfl
    exact (Prod.mk.inj (Except.ok.inj (hnumber.symm.trans hone))).2
  have hout := (Prod.mk.inj (Except.ok.inj (hwhole.symm.trans hprint))).2
  have hsign := hpercent (by simp [numberPercent])
  simp only [numberPercent, List.flatMap_cons, List.flatMap_nil, hfive, hsign] at hout
  exact absurd hout (by decide)

end EspAmp.Printf
