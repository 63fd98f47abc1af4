import EspAmp.EventBaremetal

/-!
# Timeouts of the bare-metal wait

One call of `esp_amp_event_wait_by_id` against any sequence of accesses: the word
that each of them finds, spurious failures, and a clock in milliseconds that never
goes back. The call keeps its start time in 32 bits and compares in 64, so a start
at or after `2 ^ 32` milliseconds looks like a start long ago.
-/
namespace EspAmp.EventTimeout
open AtomicWord EventBaremetal

/-- One access: what the word holds, and the clock when it is read behind it. -/
structure Access where
  spurious : Bool
  word : U32
  now : ℕ
deriving DecidableEq, Repr

/-- `esp_amp_platform_get_time_ms` returns nonnegative signed values in order. -/
def Clocked : ℕ → List Access → Prop
  | _, [] => True
  | t, a :: as => t ≤ a.now ∧ a.now < 2 ^ 63 ∧ Clocked a.now as

/-- The wait condition at a value of the word. -/
def Met (bitMask : U32) (waitForAll : Bool) (word : U32) : Prop :=
  if waitForAll then word &&& bitMask = bitMask else word &&& bitMask ≠ 0

def Local.next (l : Local) (a : Access) : Option (U32 × Local) :=
  l.access a.spurious (BitVec.ofNat 64 a.now) a.word

/-- The call returns without its condition only after more than the timeout, and goes
on without it only until then. -/
def Punctual (bitMask : U32) (waitForAll : Bool) (timeoutMs : U32) (start : ℕ) :
    Local → List Access → Prop
  | _, [] => True
  | l, a :: as =>
      match Local.next l a with
      | none => True
      | some (_, l') =>
          (∀ r, l'.result = some r → ¬ Met bitMask waitForAll r →
            start + timeoutMs.toNat < a.now) ∧
          (l'.result = none → ¬ Met bitMask waitForAll a.word →
            a.now ≤ start + timeoutMs.toNat) ∧
          Punctual bitMask waitForAll timeoutMs start l' as

/-- The local variables of a call that goes on. -/
def Waiting (bitMask : U32) (clearOnExit waitForAll : Bool) (timeoutMs curTime : U32)
    (l : Local) : Prop :=
  if waitForAll then ∃ expected desired, expected &&& bitMask = bitMask ∧
    l = .waitAll bitMask clearOnExit timeoutMs curTime expected desired
  else l = .waitAny bitMask clearOnExit timeoutMs curTime

section
variable {bitMask timeoutMs curTime : U32} {clearOnExit waitForAll : Bool} {l : Local}
  {as : List Access}

theorem timedOut_iff {cur now : ℕ} (hcur : cur < 2 ^ 32) (hle : cur ≤ now) (hnow : now < 2 ^ 63) :
    timedOut (BitVec.ofNat 64 now) (BitVec.ofNat 32 cur) timeoutMs = true ↔
      cur + timeoutMs.toNat < now := by
  have htimeout := timeoutMs.isLt
  rw [timedOut, BitVec.slt_iff_toInt_lt]
  simp only [BitVec.toInt_eq_toNat_cond, BitVec.toNat_sub, BitVec.toNat_setWidth,
    BitVec.toNat_ofNat]
  omega

theorem begin_waiting (now : U64) :
    Waiting bitMask clearOnExit waitForAll timeoutMs (now.setWidth 32)
      ((Op.wait bitMask clearOnExit waitForAll timeoutMs).begin now) := by
  cases waitForAll with
  | false => rfl
  | true => exact ⟨_, _, BitVec.and_self, rfl⟩

/-- One access: the call returns the word that it found. A call that goes on without
its condition is not late, and one that returns without it is. -/
theorem Waiting.next (h : Waiting bitMask clearOnExit waitForAll timeoutMs curTime l)
    (a : Access) : ∃ w l', Local.next l a = some (w, l') ∧
      (∀ r, l'.result = some r → r = a.word ∧ (¬ Met bitMask waitForAll r →
        timedOut (BitVec.ofNat 64 a.now) curTime timeoutMs = true)) ∧
      (l'.result = none → Waiting bitMask clearOnExit waitForAll timeoutMs curTime l' ∧
        (¬ Met bitMask waitForAll a.word →
          ¬ timedOut (BitVec.ofNat 64 a.now) curTime timeoutMs = true)) := by
  cases waitForAll with
  | false =>
      obtain rfl : l = .waitAny bitMask clearOnExit timeoutMs curTime := h
      have hr : (if clearOnExit then fetchAnd a.word (~~~bitMask) else (a.word, a.word)).1 =
          a.word := by
        cases clearOnExit <;> rfl
      simp only [Local.next, Local.access]
      generalize (if clearOnExit then fetchAnd a.word (~~~bitMask) else (a.word, a.word)) = p at *
      rw [hr]
      split_ifs with htime hzero
      · refine ⟨_, _, rfl, fun r hres => ?_, fun hres => by cases hres⟩
        cases hres
        exact ⟨rfl, fun _ => htime⟩
      · refine ⟨_, _, rfl, fun r hres => ?_, fun _ => ⟨rfl, fun _ => htime⟩⟩
        cases hres
      · refine ⟨_, _, rfl, fun r hres => ?_, fun hres => by cases hres⟩
        cases hres
        exact ⟨rfl, fun hmet => absurd hzero hmet⟩
  | true =>
      obtain ⟨expected, desired, hexp, rfl⟩ := h
      simp only [Local.next, Local.access]
      rcases compareExchangeWeak_cases a.spurious a.word expected desired with ⟨heq, hx⟩ | hx
      · rw [hx]
        refine ⟨_, _, rfl, fun r hres => ?_, fun hres => by cases hres⟩
        cases hres
        exact ⟨heq.symm, fun hmet => absurd hexp hmet⟩
      · rw [hx]
        simp only [Bool.false_eq_true, if_false]
        by_cases htime : a.word &&& bitMask ≠ bitMask ∧
            timedOut (BitVec.ofNat 64 a.now) curTime timeoutMs
        · rw [if_pos htime]
          refine ⟨_, _, rfl, fun r hres => ?_, fun hres => by cases hres⟩
          cases hres
          exact ⟨rfl, fun _ => htime.2⟩
        · rw [if_neg htime]
          refine ⟨_, _, rfl, fun r hres => ?_, fun _ => ⟨?_, fun hmet ht => ?_⟩⟩
          · cases hres
          · exact ⟨_, _, or_and_self _ _, rfl⟩
          · exact htime ⟨hmet, ht⟩

/-- A run is punctual when every test of the clock decides as the full start time
would, or when the condition never fails. -/
theorem Waiting.punctual {start t : ℕ} (ht : start ≤ t)
    (hnever : start < 2 ^ 32 ∨ ∀ word, Met bitMask waitForAll word)
    (h : Waiting bitMask clearOnExit waitForAll timeoutMs (BitVec.ofNat 32 start) l)
    (hclock : Clocked t as) : Punctual bitMask waitForAll timeoutMs start l as := by
  induction as generalizing l t with
  | nil => trivial
  | cons a as ih =>
      obtain ⟨hle, hlt, hrest⟩ := hclock
      obtain ⟨w, l', hnext, hdone, hwait⟩ := h.next a
      rw [Punctual, hnext]
      refine ⟨fun r hres hmet => ?_, fun hres hmet => ?_, ?_⟩
      · rcases hnever with hstart | hall
        · exact (timedOut_iff hstart (ht.trans hle) hlt).mp ((hdone r hres).2 hmet)
        · exact absurd (hall r) hmet
      · rcases hnever with hstart | hall
        · have hnot := (hwait hres).2 hmet
          rw [timedOut_iff hstart (ht.trans hle) hlt] at hnot
          exact not_lt.mp hnot
        · exact absurd (hall a.word) hmet
      · cases hres : l'.result with
        | none => exact ih (ht.trans hle) (hwait hres).1 hrest
        | some r =>
            cases l' with
            | done r' =>
                cases as with
                | nil => trivial
                | cons b as => trivial
            | _ => cases hres

end

/-- A call is punctual against every sequence of words and clock readings exactly when
it starts before `2 ^ 32` milliseconds, or waits for all bits of an empty mask. -/
theorem wait_punctual_iff_start_fits (start : ℕ) (hstart : start < 2 ^ 63) (bitMask timeoutMs : U32)
    (clearOnExit waitForAll : Bool) :
    (∀ as, Clocked start as → Punctual bitMask waitForAll timeoutMs start
      ((Op.wait bitMask clearOnExit waitForAll timeoutMs).begin (BitVec.ofNat 64 start)) as) ↔
      start < 2 ^ 32 ∨ (waitForAll = true ∧ bitMask = 0) := by
  have hcur : (BitVec.ofNat 64 start).setWidth 32 = BitVec.ofNat 32 start := by
    apply BitVec.eq_of_toNat_eq
    simp only [BitVec.toNat_setWidth, BitVec.toNat_ofNat]
    omega
  have hbegin : Waiting bitMask clearOnExit waitForAll timeoutMs (BitVec.ofNat 32 start)
      ((Op.wait bitMask clearOnExit waitForAll timeoutMs).begin (BitVec.ofNat 64 start)) :=
    hcur ▸ begin_waiting _
  constructor
  · intro h
    by_contra hnot
    obtain ⟨hlate, hmask⟩ := not_or.mp hnot
    have hunmet : ¬ Met bitMask waitForAll 0 := by
      cases waitForAll with
      | false => simp [Met]
      | true => exact fun hmet => hmask ⟨rfl, hmet.symm.trans BitVec.zero_and⟩
    have hshort : BitVec.ofNat 32 start = BitVec.ofNat 32 (start % 2 ^ 32) := by
      apply BitVec.eq_of_toNat_eq
      simp only [BitVec.toNat_ofNat, Nat.mod_mod]
    have hmod := Nat.mod_lt start (show 0 < 2 ^ 32 by decide)
    have htimeout := timeoutMs.isLt
    have htime : timedOut (BitVec.ofNat 64 start) (BitVec.ofNat 32 start) timeoutMs = true := by
      rw [hshort, timedOut_iff hmod (Nat.mod_le _ _) hstart]
      omega
    have hrun := h [⟨false, 0, start⟩] ⟨le_rfl, hstart, trivial⟩
    obtain ⟨w, l', hnext, hdone, hwait⟩ := hbegin.next ⟨false, 0, start⟩
    rw [Punctual, hnext] at hrun
    cases hres : l'.result with
    | none => exact (hwait hres).2 hunmet htime
    | some r =>
        obtain ⟨rfl, -⟩ := hdone r hres
        have hearly : start + timeoutMs.toNat < start := hrun.1 0 hres hunmet
        omega
  · intro h as has
    refine hbegin.punctual le_rfl (h.imp_right fun hempty word => ?_) has
    simp [Met, hempty]

/-- A call that starts at zero and is never notified waits for its millisecond. -/
theorem unnotified_wait_punctual : Punctual 1 false 1 0 ((Op.wait 1 true false 1).begin 0)
    [⟨false, 0, 0⟩, ⟨false, 0, 1⟩, ⟨false, 0, 2⟩] :=
  (wait_punctual_iff_start_fits 0 (by decide) 1 1 true false).mpr (Or.inl (by decide)) _
    ⟨by decide, by decide, by decide, by decide, by decide, by decide, trivial⟩

/-- After fifty days of uptime a call returns at once, a whole second early. -/
theorem wait_returns_early : Clocked 4320000000 [⟨false, 0, 4320000000⟩] ∧
    ¬ Punctual 1 false 1000 4320000000 ((Op.wait 1 true false 1000).begin 4320000000)
      [⟨false, 0, 4320000000⟩] := by
  refine ⟨⟨by decide, by decide, trivial⟩, fun h => ?_⟩
  have hresult : Local.next ((Op.wait 1 true false 1000).begin 4320000000)
      ⟨false, 0, 4320000000⟩ = some (0, .done 0) := by decide +kernel
  rw [Punctual, hresult] at h
  have hearly : 4320000000 + (1000 : U32).toNat < 4320000000 := h.1 0 rfl (by simp [Met])
  exact absurd hearly (by decide)

end EspAmp.EventTimeout
