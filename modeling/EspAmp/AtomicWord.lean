import Mathlib.Data.BitVec

/-!
# Atomic accesses to one word

Each operation returns the value it answers with and the word it leaves. The weak
compare-exchange may fail although the word matches; in every failure it reports
the value it found.
-/
namespace EspAmp.AtomicWord

variable {w : ℕ}

def fetchOr (word mask : BitVec w) : BitVec w × BitVec w := (word, word ||| mask)
def fetchAnd (word mask : BitVec w) : BitVec w × BitVec w := (word, word &&& mask)

/-- Outcome of a compare-exchange: the answer, the word, the expected variable. -/
structure Exchange (w : ℕ) where
  success : Bool
  word : BitVec w
  expected : BitVec w

/-- `atomic_compare_exchange_weak`; the first argument is a spurious failure. -/
def compareExchangeWeak (spurious : Bool) (word expected desired : BitVec w) : Exchange w :=
  if word = expected ∧ spurious = false then ⟨true, desired, expected⟩ else ⟨false, word, word⟩

/-- An attempt succeeds on the expected word, or reports the word it found. -/
theorem compareExchangeWeak_cases (spurious : Bool) (word expected desired : BitVec w) :
    (word = expected ∧ compareExchangeWeak spurious word expected desired =
        ⟨true, desired, expected⟩) ∨
      compareExchangeWeak spurious word expected desired = ⟨false, word, word⟩ := by
  unfold compareExchangeWeak
  split_ifs with h
  · exact Or.inl ⟨h.1, rfl⟩
  · exact Or.inr rfl

/-- `while (!atomic_compare_exchange_weak(..));` with nobody else at the word: one
attempt for each choice, the answer being the expected variable and the word. -/
def exchangeLoop (word desired : BitVec w) : List Bool → BitVec w → Option (BitVec w × BitVec w)
  | [], _ => none
  | spurious :: rest, expected =>
      let x := compareExchangeWeak spurious word expected desired
      if x.success then some (x.expected, x.word) else exchangeLoop word desired rest x.expected

theorem exchangeLoop_eq {word desired expected : BitVec w} {choices : List Bool}
    {r : BitVec w × BitVec w} (h : exchangeLoop word desired choices expected = some r) :
    r = (word, desired) := by
  induction choices generalizing expected with
  | nil => cases h
  | cons spurious rest ih =>
      rw [exchangeLoop] at h
      rcases compareExchangeWeak_cases spurious word expected desired with ⟨he, hx⟩ | hx
      · rw [hx] at h
        exact (Option.some.inj h).symm.trans (by rw [he])
      · rw [hx] at h
        exact ih h

/-- The mask of one bit. -/
def bit (i : Fin w) : BitVec w := 1#w <<< i.val

theorem bit_getLsbD (i : Fin w) : (bit i).getLsbD i = true := by
  rw [bit, ← BitVec.twoPow_eq, BitVec.getLsbD_twoPow]
  simp

theorem and_bit_ne_zero_iff (x : BitVec w) (i : Fin w) :
    x &&& bit i ≠ 0 ↔ x.getLsbD i = true := by
  have hne : bit i ≠ 0#w := by
    intro h
    have hbit := bit_getLsbD i
    rw [h] at hbit
    simp at hbit
  rw [bit, ← BitVec.twoPow_eq] at *
  rw [BitVec.and_twoPow]
  split_ifs with hx
  · exact ⟨fun _ => hx, fun _ => hne⟩
  · exact ⟨fun h => absurd rfl h, fun h => absurd h hx⟩

end EspAmp.AtomicWord
