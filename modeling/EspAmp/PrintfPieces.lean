import EspAmp.PrintfConvert

/-!
# Formats built from pieces

A format of literal characters, `%%` and complete directives is scanned piece by piece:
what the scanner reads of a directive ends with its conversion character, whatever
follows. One round of the main loop therefore handles one piece. Widths and precisions
are lists of decimal digits of any length, which the scanner turns into wrapping numbers.
-/
namespace EspAmp.Printf
open ByteMemory

def digitChar (d : Fin 10) : U8 := BitVec.ofNat 8 (48 + d)

/-- The number that the scanner makes of some digits. -/
def scannedFrom (prec : ℤ) (ds : List (Fin 10)) : ℤ :=
  ds.foldl (fun prec d => int32 (prec * 10 + d.val)) prec

def scannedValue (ds : List (Fin 10)) : ℤ := scannedFrom 0 ds

inductive Modifier where
  | none
  | long
  | longLong
deriving DecidableEq, Repr

def Modifier.text : Modifier → List U8
  | .none => []
  | .long => [chr 'l']
  | .longLong => [chr 'l', chr 'l']

inductive Letter where
  | d | u | x | X | p | s | c
deriving DecidableEq, Repr

def Letter.char : Letter → U8
  | .d => chr 'd'
  | .u => chr 'u'
  | .x => chr 'x'
  | .X => chr 'X'
  | .p => chr 'p'
  | .s => chr 's'
  | .c => chr 'c'

/-- A complete directive. A leading zero is the flag and not part of the width. -/
structure Directive where
  minus : Bool
  zero : Bool
  width : List (Fin 10)
  width_head : width.head? ≠ some 0
  precision : Option (List (Fin 10))
  modifier : Modifier
  letter : Letter

namespace Directive
variable (d : Directive)

def flagText (flag : Bool) (c : U8) : List U8 := if flag then [c] else []

def precisionText (precision : Option (List (Fin 10))) : List U8 :=
  match precision with
  | none => []
  | some ds => chr '.' :: ds.map digitChar

/-- The directive behind its `%`. -/
def body : List U8 :=
  flagText d.minus (chr '-') ++ (flagText d.zero (chr '0') ++ (d.width.map digitChar ++
    (precisionText d.precision ++ (d.modifier.text ++ [d.letter.char]))))

/-- What the scanner makes of the directive. -/
def spec : Spec where
  padOnRight := d.minus
  zeroFill := d.zero && d.precision.isNone
  leftPrec := scannedValue d.width
  rightPrec := scannedValue (d.precision.getD [])
  islong := d.modifier = .long
  islonglong := d.modifier = .longLong

end Directive

/-- A piece of a format, a directive with its argument. -/
inductive Piece where
  | literal (c : U8) (hc : c ≠ 0 ∧ c ≠ chr '%')
  | percent
  | directive (d : Directive) (arg : Arg)

namespace Piece

def text : Piece → List U8
  | literal c _ => [c]
  | percent => ascii "%%"
  | directive d _ => chr '%' :: d.body

/-- The arguments of some pieces, followed by any others. -/
def argStream : List Piece → (ℕ → Arg) → ℕ → Arg
  | [], rest => rest
  | directive _ arg :: ps, rest => fun i => Nat.casesOn i arg (argStream ps rest)
  | literal _ _ :: ps, rest => argStream ps rest
  | percent :: ps, rest => argStream ps rest

end Piece

def plainSpec : Spec := ⟨false, false, 0, 0, false, false⟩

/-- The round of the main loop that handles a piece. -/
def pieceRound (st : State) : Piece → Except Fault State
  | .literal c _ => .ok (st.put [c] 1)
  | .percent => finish plainSpec false (st.put (ascii "%") 0)
  | .directive d arg => convert d.spec d.letter.char arg st

section Scanner
variable {c : U8} {rest : List U8}

theorem isDigit_digitChar (d : Fin 10) : isDigit (digitChar d) = true := by
  revert d
  decide

theorem addDigit_digitChar (prec : ℤ) (d : Fin 10) :
    addDigit prec (digitChar d) = int32 (prec * 10 + d.val) := by
  have hval : ((digitChar d).toNat : ℤ) - (chr '0').toNat = d.val := by
    revert d
    decide
  rw [addDigit, hval]

/-- The digit loop stops at the first character that is no digit. -/
theorem scanDigits_eq (hc : isDigit c = false) (ds : List (Fin 10)) (prec : ℤ) {a : U8}
    {l : List U8} (h : a :: l = ds.map digitChar ++ c :: rest) :
    scanDigits prec a l = (scannedFrom prec ds, c, some rest) := by
  induction ds generalizing prec a l with
  | nil =>
      obtain ⟨rfl, rfl⟩ := List.cons.inj h
      cases l <;> simp [scanDigits, hc, scannedFrom]
  | cons d ds ih =>
      rw [List.map_cons, List.cons_append] at h
      obtain ⟨rfl, rfl⟩ := List.cons.inj h
      obtain ⟨a', l', hl⟩ := List.exists_cons_of_ne_nil
        (show ds.map digitChar ++ c :: rest ≠ [] by simp)
      rw [hl, scanDigits, if_pos (isDigit_digitChar d), addDigit_digitChar]
      exact ih _ hl.symm

theorem skip_eq {flag : Bool} {e a b : U8} {l l' : List U8} (hb : flag = false → b ≠ e)
    (h : a :: l = Directive.flagText flag e ++ b :: l') :
    skip e a (some l) = .ok (flag, b, some l') := by
  cases flag with
  | true =>
      obtain ⟨rfl, rfl⟩ := List.cons.inj h
      rw [skip, if_pos rfl]
      rfl
  | false =>
      obtain ⟨rfl, rfl⟩ := List.cons.inj h
      rw [skip, if_neg (hb rfl)]

/-- The text in front of a conversion character does not begin with a flag, a digit or a
point unless it has to. -/
theorem modifier_head (modifier : Modifier) (letter : Letter) (rest : List U8) :
    ∃ b l, modifier.text ++ letter.char :: rest = b :: l ∧ isDigit b = false ∧
      b ≠ chr '-' ∧ b ≠ chr '.' := by
  cases modifier with
  | none => exact ⟨_, _, rfl, by cases letter <;> decide⟩
  | long => exact ⟨_, _, rfl, by decide⟩
  | longLong => exact ⟨_, _, rfl, by decide⟩

theorem precision_head (precision : Option (List (Fin 10))) {t : List U8}
    (ht : ∃ b l, t = b :: l ∧ isDigit b = false ∧ b ≠ chr '-' ∧ b ≠ chr '.') :
    ∃ b l, Directive.precisionText precision ++ t = b :: l ∧ isDigit b = false ∧
      b ≠ chr '-' := by
  cases precision with
  | none =>
      obtain ⟨b, l, rfl, hdigit, hminus, -⟩ := ht
      exact ⟨b, l, rfl, hdigit, hminus⟩
  | some ds => exact ⟨_, _, rfl, by decide⟩

theorem width_head {width : List (Fin 10)} (hwidth : width.head? ≠ some 0) {t : List U8}
    (ht : ∃ b l, t = b :: l ∧ isDigit b = false ∧ b ≠ chr '-') :
    ∃ b l, width.map digitChar ++ t = b :: l ∧ b ≠ chr '0' ∧ b ≠ chr '-' := by
  cases width with
  | nil =>
      obtain ⟨b, l, rfl, hdigit, hminus⟩ := ht
      refine ⟨b, l, rfl, ?_, hminus⟩
      rintro rfl
      exact absurd hdigit (by decide)
  | cons d ds =>
      refine ⟨_, _, rfl, ?_⟩
      have hd : d ≠ 0 := by simpa using hwidth
      clear hwidth
      revert hd d
      decide

theorem zero_head (zero : Bool) {t : List U8}
    (ht : ∃ b l, t = b :: l ∧ b ≠ chr '0' ∧ b ≠ chr '-') :
    ∃ b l, Directive.flagText zero (chr '0') ++ t = b :: l ∧ b ≠ chr '-' := by
  cases zero with
  | false =>
      obtain ⟨b, l, rfl, -, hminus⟩ := ht
      exact ⟨b, l, rfl, hminus⟩
  | true => exact ⟨_, _, rfl, by decide⟩

theorem scanPrecision_eq (precision : Option (List (Fin 10))) {a b : U8} {l l' : List U8}
    (hdigit : isDigit b = false) (hpoint : b ≠ chr '.')
    (h : a :: l = Directive.precisionText precision ++ b :: l') :
    scanPrecision a (some l) =
      .ok (precision.isSome, scannedValue (precision.getD []), b, some l') := by
  cases precision with
  | none =>
      obtain ⟨rfl, rfl⟩ := List.cons.inj h
      rw [scanPrecision, skip, if_neg hpoint]
      rfl
  | some ds =>
      obtain ⟨rfl, rfl⟩ := List.cons.inj h
      obtain ⟨a', l'', hl⟩ := List.exists_cons_of_ne_nil
        (show ds.map digitChar ++ b :: l' ≠ [] by simp)
      have hds := scanDigits_eq hdigit ds 0 hl.symm
      change scanPrecision (chr '.') (some (ds.map digitChar ++ b :: l')) = _
      rw [hl, scanPrecision, skip, if_pos rfl]
      change (scanNumber a' (some l'')).map _ = _
      rw [scanNumber, hds]
      rfl

theorem scanModifier_eq (modifier : Modifier) (letter : Letter) {a : U8} {l : List U8}
    (h : a :: l = modifier.text ++ letter.char :: rest) :
    scanModifier a (some l) =
      .ok (modifier = .long, modifier = .longLong, letter.char, some rest) := by
  have hl : letter.char ≠ chr 'l' := by cases letter <;> decide
  cases modifier with
  | none =>
      obtain ⟨rfl, rfl⟩ := List.cons.inj h
      rw [scanModifier, skip, if_neg hl]
      rfl
  | long =>
      obtain ⟨rfl, rfl⟩ := List.cons.inj h
      rw [scanModifier, skip, if_pos rfl]
      change (skip (chr 'l') letter.char (some rest)).map _ = _
      rw [skip, if_neg hl]
      rfl
  | longLong =>
      obtain ⟨rfl, rfl⟩ := List.cons.inj h
      rfl

/-- The scanner reads a directive up to its conversion character. -/
theorem scan_body (d : Directive) (rest : List U8) :
    scan (some (d.body ++ rest)) = .ok (d.spec, d.letter.char, some rest) := by
  have hmodifier := modifier_head d.modifier d.letter rest
  have hprecision := precision_head d.precision hmodifier
  have hwidth := width_head d.width_head hprecision
  have hzero := zero_head d.zero hwidth
  obtain ⟨b₄, l₄, h₄, hdigit₄, -, hpoint₄⟩ := hmodifier
  obtain ⟨b₃, l₃, h₃, hdigit₃, -⟩ := hprecision
  obtain ⟨b₂, l₂, h₂, hzero₂, -⟩ := hwidth
  obtain ⟨b₁, l₁, h₁, hminus₁⟩ := hzero
  have hbody : d.body ++ rest = Directive.flagText d.minus (chr '-') ++ b₁ :: l₁ := by
    rw [← h₁]
    simp [Directive.body]
  obtain ⟨b₀, l₀, h₀⟩ := List.exists_cons_of_ne_nil
    (show Directive.flagText d.minus (chr '-') ++ b₁ :: l₁ ≠ [] by simp)
  rw [h₂] at h₁
  rw [h₃] at h₂
  rw [h₄] at h₃
  have hskip₀ := skip_eq (fun _ => hminus₁) h₀.symm
  have hskip₁ := skip_eq (fun _ => hzero₂) h₁.symm
  have hnumber : scanNumber b₂ (some l₂) = .ok (scannedValue d.width, b₃, some l₃) :=
    congrArg Except.ok (scanDigits_eq hdigit₃ d.width 0 h₂.symm)
  have hpoint := scanPrecision_eq d.precision hdigit₄ hpoint₄ h₃.symm
  have hlong := scanModifier_eq d.modifier d.letter h₄.symm
  rw [hbody, h₀]
  simp only [scan, next, bind, Except.bind, hskip₀, hskip₁, hnumber, hpoint, hlong]
  rw [Directive.spec, Option.not_isSome]

theorem scan_percent (rest : List U8) :
    scan (some (chr '%' :: rest)) = .ok (plainSpec, chr '%', some rest) := by
  cases rest <;> rfl

end Scanner

section Rounds

theorem argStream_cons (p : Piece) (ps : List Piece) (rest : ℕ → Arg) :
    Piece.argStream (p :: ps) rest = Piece.argStream [p] (Piece.argStream ps rest) := by
  cases p <;> rfl

theorem Letter.takesArg (letter : Letter) : (convOf letter.char).takesArg = true := by
  cases letter <;> decide

/-- One round of the main loop handles one piece. -/
theorem vprintfLoop_piece (fuel : ℕ) (p : Piece) (ap : ℕ → Arg) (rest : List U8) (st : State) :
    vprintfLoop (fuel + 1) (Piece.argStream [p] ap) (some (p.text ++ rest)) st =
      (pieceRound st p).bind (vprintfLoop fuel ap (some rest)) := by
  cases p with
  | literal c hc =>
      rw [vprintfLoop, Piece.text, List.singleton_append, next]
      simp only [bind, Except.bind, if_neg hc.1, if_neg hc.2]
      rfl
  | percent =>
      change vprintfLoop (fuel + 1) ap (some (chr '%' :: chr '%' :: rest)) st = _
      rw [vprintfLoop, next]
      simp only [bind, Except.bind, scan_percent]
      rfl
  | directive d arg =>
      rw [vprintfLoop, Piece.text, List.cons_append, next]
      simp only [bind, Except.bind, scan_body, d.letter.takesArg]
      rfl

def runPieces : List Piece → State → Except Fault State
  | [], st => .ok st
  | p :: ps, st => (pieceRound st p).bind (runPieces ps)

theorem vprintfLoop_pieces (ps : List Piece) (rest : ℕ → Arg) {fuel : ℕ}
    (hfuel : ps.length < fuel) (st : State) :
    vprintfLoop fuel (Piece.argStream ps rest) (some (ps.flatMap Piece.text)) st =
      runPieces ps st := by
  obtain ⟨fuel, rfl⟩ := Nat.exists_eq_add_one_of_ne_zero (show fuel ≠ 0 by omega)
  induction ps generalizing fuel st with
  | nil => rfl
  | cons p ps ih =>
      rw [List.length_cons] at hfuel
      obtain ⟨fuel, rfl⟩ := Nat.exists_eq_add_one_of_ne_zero (show fuel ≠ 0 by omega)
      rw [argStream_cons, List.flatMap_cons, vprintfLoop_piece, runPieces]
      exact congrArg _ (funext fun st' => ih st' fuel (by omega))

/-- A format of pieces that is a C string. -/
structure Format where
  pieces : List Piece
  size : (pieces.flatMap Piece.text).length + 2 < 2 ^ 31

theorem digits_no_nul (ds : List (Fin 10)) : ∀ c ∈ ds.map digitChar, c ≠ 0 := by
  have hdigit : ∀ d : Fin 10, digitChar d ≠ 0 := by decide
  rw [List.forall_mem_map]
  exact fun d _ => hdigit d

theorem Directive.body_no_nul (d : Directive) : ∀ c ∈ d.body, c ≠ 0 := by
  have hprecision : ∀ c ∈ precisionText d.precision, c ≠ 0 := by
    cases d.precision with
    | none => decide
    | some ds =>
        rw [precisionText, List.forall_mem_cons]
        exact ⟨by decide, digits_no_nul ds⟩
  simp only [body, List.forall_mem_append, List.forall_mem_singleton]
  refine ⟨?_, ?_, digits_no_nul d.width, hprecision, ?_, ?_⟩
  · cases d.minus <;> decide
  · cases d.zero <;> decide
  · cases d.modifier <;> decide
  · cases d.letter <;> decide

theorem Piece.text_no_nul (p : Piece) : ∀ c ∈ p.text, c ≠ 0 := by
  cases p with
  | literal c hc => simpa [text] using hc.1
  | percent => decide
  | directive d arg =>
      rw [text, List.forall_mem_cons]
      exact ⟨by decide, d.body_no_nul⟩

theorem Piece.text_ne_nil (p : Piece) : p.text ≠ [] := by
  cases p <;> exact List.cons_ne_nil _ _

namespace Format

def cstring (f : Format) : CString where
  bytes := f.pieces.flatMap Piece.text
  no_nul := by
    intro c hc
    obtain ⟨p, -, hp⟩ := List.mem_flatMap.mp hc
    exact p.text_no_nul c hp
  size := f.size

/-- The call with this format, its arguments and any others behind them. -/
def print (f : Format) (rest : ℕ → Arg) : Except Fault (ℤ × List U8) :=
  subcoreVprintf f.cstring (Piece.argStream f.pieces rest)

theorem print_eq (f : Format) (rest : ℕ → Arg) :
    f.print rest = (runPieces f.pieces .start).map fun st => (st.res, st.out) := by
  have hlength : f.pieces.length ≤ (f.pieces.flatMap Piece.text).length := by
    rw [List.length_flatMap, ← List.length_map (fun p : Piece => p.text.length)]
    refine List.length_le_sum_of_one_le _ ?_
    rw [List.forall_mem_map]
    exact fun p _ => List.length_pos_iff.mpr p.text_ne_nil
  rw [print, subcoreVprintf]
  exact congrArg _ (vprintfLoop_pieces f.pieces rest (by simpa [cstring] using hlength) .start)

end Format

end Rounds
end EspAmp.Printf
