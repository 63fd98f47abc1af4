import EspAmp.Words

/-!
# Reading the cycle counter

`esp_amp_arch_get_cpu_cycle_64` reads the counter in two halves and repeats the pair
until the high half agrees with a snapshot. A trace gives the counter at every CSR
read of the call. The snapshot is taken once and never again, so a carry before the
first high half leaves the loop waiting for a value that has passed.
-/
namespace EspAmp.CpuCycle

/-- The counter at each CSR read. It never decreases, and fewer than `2 ^ 32` cycles
pass between two reads. -/
structure Trace where
  cycle : ℕ → U64
  mono : ∀ i, cycle i ≤ cycle (i + 1)
  gap : ∀ i, (cycle (i + 1)).toNat < (cycle i).toNat + 2 ^ 32

/-- The two CSRs. -/
def mcycle (c : U64) : U32 := c.extractLsb' 0 32
def mcycleh (c : U64) : U32 := c.extractLsb' 32 32

/-- The loop after `i` reads, with its result and the number of reads of the call. -/
def cycleLoop (c : ℕ → U64) (mcyclehSnapshot : U32) : ℕ → ℕ → Option (U64 × ℕ)
  | 0, _ => none
  | fuel + 1, i =>
      let rvMcycle := mcycle (c i)
      let rvMcycleh := mcycleh (c (i + 1))
      if mcyclehSnapshot ≠ rvMcycleh then cycleLoop c mcyclehSnapshot fuel (i + 2)
      else some (rvMcycleh ++ rvMcycle, i + 2)

/-- `esp_amp_arch_get_cpu_cycle_64` -/
def archGetCpuCycle64 (c : ℕ → U64) (fuel : ℕ) : Option (U64 × ℕ) :=
  cycleLoop c (mcycleh (c 0)) fuel 1

/-- The call ends, with a value between the counter at its first and at its last
read. -/
def Consistent (c : ℕ → U64) : Prop :=
  ∃ fuel r n, archGetCpuCycle64 c fuel = some (r, n) ∧ c 0 ≤ r ∧ r ≤ c (n - 1)

theorem toNat_mcycleh (c : U64) : (mcycleh c).toNat = c.toNat / 2 ^ 32 := by
  have hlt := c.isLt
  rw [mcycleh, BitVec.extractLsb'_toNat, Nat.shiftRight_eq_div_pow]
  exact Nat.mod_eq_of_lt (Nat.div_lt_of_lt_mul hlt)

theorem mcycleh_append_mcycle (c : U64) : mcycleh c ++ mcycle c = c := by
  rw [mcycleh, mcycle, BitVec.extractLsb'_append_extractLsb'_eq_extractLsb' (by decide)]
  simp

theorem Trace.mono_le (t : Trace) {i j : ℕ} (h : i ≤ j) : t.cycle i ≤ t.cycle j := by
  induction h with
  | refl => exact BitVec.le_refl _
  | step _ ih => exact BitVec.le_trans ih (t.mono _)

theorem Trace.mcycleh_le (t : Trace) {i j : ℕ} (h : i ≤ j) :
    (mcycleh (t.cycle i)).toNat ≤ (mcycleh (t.cycle j)).toNat := by
  rw [toNat_mcycleh, toNat_mcycleh]
  exact Nat.div_le_div_right (t.mono_le h)

/-- The loop ends only where the high half agrees with the snapshot. -/
theorem cycleLoop_some {c : ℕ → U64} {snapshot : U32} {fuel i n : ℕ} {r : U64}
    (h : cycleLoop c snapshot fuel i = some (r, n)) :
    ∃ j, i ≤ j ∧ n = j + 2 ∧ snapshot = mcycleh (c (j + 1)) := by
  induction fuel generalizing i with
  | zero => cases h
  | succ fuel ih =>
      rw [cycleLoop] at h
      split_ifs at h with hne
      · obtain ⟨j, hij, hn, hj⟩ := ih h
        exact ⟨j, by omega, hn, hj⟩
      · obtain ⟨-, rfl⟩ := Prod.mk.inj (Option.some.inj h)
        exact ⟨i, le_rfl, rfl, not_not.mp hne⟩

/-- The read ends, and then with a consistent value, exactly when the high half does
not change between the snapshot and the first comparison. -/
theorem cycle_read_consistent_iff_no_carry (t : Trace) :
    Consistent t.cycle ↔ mcycleh (t.cycle 0) = mcycleh (t.cycle 2) := by
  constructor
  · rintro ⟨fuel, r, n, hr, -, -⟩
    obtain ⟨j, hj, -, heq⟩ := cycleLoop_some hr
    have hfirst := t.mcycleh_le (show 0 ≤ 2 by decide)
    have hlast := t.mcycleh_le (show 2 ≤ j + 1 by omega)
    rw [← heq] at hlast
    exact BitVec.eq_of_toNat_eq (le_antisymm hfirst hlast)
  · intro heq
    have hlow := t.mcycleh_le (show 0 ≤ 1 by decide)
    have hhigh := t.mcycleh_le (show 1 ≤ 2 by decide)
    rw [← heq] at hhigh
    have hmid : mcycleh (t.cycle 1) = mcycleh (t.cycle 2) := by
      rw [← heq]
      exact BitVec.eq_of_toNat_eq (le_antisymm hhigh hlow)
    refine ⟨1, t.cycle 1, 3, ?_, t.mono_le (by decide), t.mono_le (by decide)⟩
    simp only [archGetCpuCycle64, cycleLoop]
    rw [if_neg (not_not.mpr heq), ← hmid, mcycleh_append_mcycle]

/-- The low half overflows between the snapshot and the first read behind it. -/
def carryTrace : Trace where
  cycle i := if i = 0 then 0xffffffff else 0x100000000
  mono i := by
    cases i with
    | zero => decide
    | succ i => simp
  gap i := by
    cases i with
    | zero => decide
    | succ i => simp

theorem carry_never_returns : ¬ Consistent carryTrace.cycle := by
  rintro ⟨fuel, r, n, hr, -, -⟩
  obtain ⟨j, hj, -, heq⟩ := cycleLoop_some hr
  simp only [carryTrace, if_neg (Nat.succ_ne_zero j), if_true] at heq
  exact absurd heq (by decide)

end EspAmp.CpuCycle
