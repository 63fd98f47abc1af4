import EspAmp.EventBinding

/-!
# Event bits that the operating system refuses

`os_env_event_isr` empties the word of every entry with a handle and passes what it
found to `xEventGroupSetBitsFromISR`, whose result it drops. FreeRTOS hands that call to
its timer task and refuses it, setting nothing, when the command queue is full. The
answers are any function of the position in the table.
-/
namespace EspAmp.EventRefusal
open AtomicWord ByteMemory EventTable EventBinding

variable {H : Type}

/-- One call of `xEventGroupSetBitsFromISR`, with the position and the word of its
entry. -/
structure SetBitsCall (H : Type) where
  index : ℕ
  word : U32
  delivery : Delivery H

/-- The calls of one run of the handler from position `i` on. -/
def isrCalls : ℕ → Table H → (U32 → U32) → List (SetBitsCall H)
  | _, [], _ => []
  | i, e :: t, words =>
      match e.eventHandle with
      | none => isrCalls (i + 1) t words
      | some h =>
          ⟨i, e.eventBits, ⟨e.sysinfoId, h, words e.eventBits⟩⟩ ::
            isrCalls (i + 1) t (Function.update words e.eventBits 0)

/-- The entry has a handle and this word. -/
def boundTo (a : U32) (e : Entry H) : Bool := e.eventHandle.isSome && e.eventBits == a

/-- The position of the first entry with a handle and a given word. -/
def firstBound (a : U32) (t : Table H) : Option ℕ := t.findIdx? (boundTo a)

/-- Every bit of a word with a bound entry is still set, or was accepted by an event
group that is bound to the word. -/
def BitsKept (t : Table H) (words words' : U32 → U32) (accepts : ℕ → Bool) : Prop :=
  ∀ a, (∃ e ∈ t, boundTo a e = true) → ∀ n, (words a).getLsbD n = true →
    (words' a).getLsbD n = true ∨ ∃ c ∈ isrCalls 0 t words,
      c.word = a ∧ c.delivery.bits.getLsbD n = true ∧ accepts c.index = true

section Exchange
variable {w : ℕ}

/-- An exchange loop ends with its second attempt that does not fail spuriously. -/
theorem exchangeLoop_ends {word desired expected : BitVec w} {choices : List Bool}
    (h : (if word = expected then 1 else 2) ≤ choices.count false) :
    ∃ r, exchangeLoop word desired choices expected = some r := by
  induction choices generalizing expected with
  | nil =>
      split_ifs at h
      · simp at h
      · simp at h
  | cons spurious rest ih =>
      rw [exchangeLoop, compareExchangeWeak]
      by_cases hsuccess : word = expected ∧ spurious = false
      · exact ⟨_, by rw [if_pos hsuccess, if_pos rfl]⟩
      · rw [if_neg hsuccess, if_neg Bool.false_ne_true]
        refine ih ?_
        rw [if_pos rfl]
        cases spurious with
        | true =>
            rw [List.count_cons_of_ne (by decide)] at h
            split_ifs at h
            · exact h
            · omega
        | false =>
            rw [if_neg fun heq => hsuccess ⟨heq, rfl⟩, List.count_cons_self] at h
            omega

end Exchange

section Run
variable {choices : U32 → List Bool} {words words' : U32 → U32} {log log' : List (Delivery H)}

theorem osEnvEventIsr_ends (hchoices : ∀ a, 2 ≤ (choices a).count false) (t : Table H)
    (words : U32 → U32) (log : List (Delivery H)) :
    ∃ words' log', osEnvEventIsr choices t words log = some (words', log') := by
  induction t generalizing words log with
  | nil => exact ⟨words, log, rfl⟩
  | cons e t ih =>
      rw [osEnvEventIsr, isrEntry]
      cases hh : e.eventHandle with
      | none => exact ih words log
      | some h =>
          have hcount : (if words e.eventBits = 0 then 1 else 2) ≤
              (choices e.eventBits).count false := by
            have := hchoices e.eventBits
            split_ifs
            · omega
            · exact this
          obtain ⟨r, hr⟩ : ∃ r, exchangeLoop (words e.eventBits) 0 (choices e.eventBits) 0 =
            some r := exchangeLoop_ends hcount
          simp only [hr, Option.map_some]
          exact ih _ _

/-- The handler makes these calls and no others. -/
theorem osEnvEventIsr_calls {t : Table H} (i : ℕ)
    (h : osEnvEventIsr choices t words log = some (words', log')) :
    log' = log ++ (isrCalls i t words).map SetBitsCall.delivery := by
  induction t generalizing words log i with
  | nil =>
      cases h
      simp [isrCalls]
  | cons e t ih =>
      rw [osEnvEventIsr] at h
      cases he : isrEntry choices e words log with
      | none => simp [he] at h
      | some r =>
          obtain ⟨w₁, log₁⟩ := r
          replace h : osEnvEventIsr choices t w₁ log₁ = some (words', log') := by
            rw [he] at h
            exact h
          rcases isrEntry_cases he with ⟨hg, rfl, rfl⟩ | ⟨g, hg, rfl, rfl⟩
          · rw [isrCalls, hg]
            exact ih (i + 1) h
          · rw [isrCalls, hg, ih (i + 1) h]
            simp

end Run

section Calls
variable {t : Table H} {words : U32 → U32} {a : U32} {i k : ℕ}

/-- A call with bits comes from the first bound entry of its word. -/
theorem firstBound_of_call {c : SetBitsCall H} (hc : c ∈ isrCalls k t words)
    (hbits : c.delivery.bits ≠ 0) : c.delivery.bits = words c.word ∧
      ∃ i, firstBound c.word t = some i ∧ c.index = k + i := by
  induction t generalizing words k with
  | nil => cases hc
  | cons e t ih =>
      rw [isrCalls] at hc
      cases hh : e.eventHandle with
      | none =>
          rw [hh] at hc
          obtain ⟨heq, i, hi, hindex⟩ := ih hc
          refine ⟨heq, i + 1, ?_, by omega⟩
          rw [firstBound, List.findIdx?_cons, if_neg (by simp [boundTo, hh])]
          exact congrArg (Option.map (· + 1)) hi
      | some h =>
          rw [hh] at hc
          rcases List.mem_cons.mp hc with rfl | hc
          · refine ⟨rfl, 0, ?_, rfl⟩
            rw [firstBound, List.findIdx?_cons, if_pos (by simp [boundTo, hh])]
          · obtain ⟨heq, i, hi, hindex⟩ := ih hc
            have hne : c.word ≠ e.eventBits := by
              intro hword
              rw [hword, Function.update_self] at heq
              exact hbits heq
            rw [Function.update_of_ne hne] at heq
            refine ⟨heq, i + 1, ?_, by omega⟩
            rw [firstBound, List.findIdx?_cons, if_neg (by simp [boundTo, Ne.symm hne])]
            exact congrArg (Option.map (· + 1)) hi

/-- The first bound entry of a word passes on the whole word. -/
theorem call_of_firstBound (hi : firstBound a t = some i) :
    ∃ c ∈ isrCalls k t words, c.index = k + i ∧ c.word = a ∧ c.delivery.bits = words a := by
  induction t generalizing words k i with
  | nil => cases hi
  | cons e t ih =>
      rw [firstBound, List.findIdx?_cons] at hi
      by_cases hb : boundTo a e = true
      · rw [if_pos hb] at hi
        obtain rfl := Option.some.inj hi
        obtain ⟨hsome, hword⟩ : e.eventHandle.isSome = true ∧ e.eventBits = a := by
          simpa [boundTo] using hb
        obtain ⟨h, hh⟩ := Option.isSome_iff_exists.mp hsome
        rw [isrCalls, hh]
        exact ⟨_, List.mem_cons_self, rfl, hword, by rw [hword]⟩
      · rw [if_neg hb] at hi
        obtain ⟨j, hj, rfl⟩ := Option.map_eq_some_iff.mp hi
        rw [isrCalls]
        cases hh : e.eventHandle with
        | none =>
            obtain ⟨c, hc, hindex, hword, hbits⟩ : ∃ c ∈ isrCalls (k + 1) t words,
              c.index = k + 1 + j ∧ c.word = a ∧ c.delivery.bits = words a := ih hj
            exact ⟨c, hc, by omega, hword, hbits⟩
        | some h =>
            have hne : a ≠ e.eventBits := by
              rintro rfl
              exact hb (by simp [boundTo, hh])
            obtain ⟨c, hc, hindex, hword, hbits⟩ :
              ∃ c ∈ isrCalls (k + 1) t (Function.update words e.eventBits 0),
                c.index = k + 1 + j ∧ c.word = a ∧
                  c.delivery.bits = Function.update words e.eventBits 0 a := ih hj
            rw [Function.update_of_ne hne] at hbits
            exact ⟨c, List.mem_cons_of_mem _ hc, by omega, hword, hbits⟩

theorem exists_firstBound (h : ∃ e ∈ t, boundTo a e = true) : ∃ i, firstBound a t = some i := by
  cases hf : firstBound a t with
  | some i => exact ⟨i, rfl⟩
  | none =>
      obtain ⟨e, he, hb⟩ := h
      rw [firstBound, List.findIdx?_eq_none_iff] at hf
      exact absurd hb (by simp [hf e he])

theorem bound_of_firstBound (h : firstBound a t = some i) : ∃ e ∈ t, boundTo a e = true := by
  obtain ⟨hlt, hb, -⟩ := List.findIdx?_eq_some_iff_getElem.mp h
  exact ⟨t[i], List.getElem_mem hlt, hb⟩

theorem exists_bit {x : U32} (h : x ≠ 0) : ∃ n, x.getLsbD n = true := by
  by_contra hnone
  push Not at hnone
  exact h (BitVec.eq_of_getLsbD_eq fun n _ => by simp [Bool.eq_false_iff.mpr (hnone n)])

end Calls

/-- A run of the handler keeps every bit exactly when the operating system accepts the
call of every first bound entry whose word has bits. The handler ends once each of its
exchange loops has had two attempts that do not fail spuriously. -/
theorem event_isr_keeps_bits_iff (t : Table H) (words : U32 → U32) (accepts : ℕ → Bool)
    (choices : U32 → List Bool) (hchoices : ∀ a, 2 ≤ (choices a).count false) :
    ∃ words' log, osEnvEventIsr choices t words [] = some (words', log) ∧
      log = (isrCalls 0 t words).map SetBitsCall.delivery ∧
      (BitsKept t words words' accepts ↔
        ∀ a i, firstBound a t = some i → words a ≠ 0 → accepts i = true) := by
  obtain ⟨words', log, hrun⟩ := osEnvEventIsr_ends hchoices t words []
  obtain ⟨-, -, -, hzero, -⟩ := osEnvEventIsr_spec hrun
  have hcleared : ∀ a, (∃ e ∈ t, boundTo a e = true) → words' a = 0 := by
    rintro a ⟨e, he, hb⟩
    obtain ⟨hsome, rfl⟩ : e.eventHandle.isSome = true ∧ e.eventBits = a := by
      simpa [boundTo] using hb
    exact hzero e he (Option.isSome_iff_ne_none.mp hsome)
  refine ⟨words', log, hrun, osEnvEventIsr_calls 0 hrun, ?_, ?_⟩
  · intro hkept a i hi hne
    obtain ⟨n, hn⟩ := exists_bit hne
    have hbound := bound_of_firstBound hi
    rcases hkept a hbound n hn with hset | ⟨c, hc, rfl, hbit, haccepts⟩
    · rw [hcleared a hbound] at hset
      simp at hset
    · have hbits : c.delivery.bits ≠ 0 := by
        intro hz
        rw [hz] at hbit
        simp at hbit
      obtain ⟨-, j, hj, hindex⟩ := firstBound_of_call hc hbits
      obtain rfl := Option.some.inj (hi.symm.trans hj)
      rwa [hindex, Nat.zero_add] at haccepts
  · intro hall a hbound n hn
    obtain ⟨i, hi⟩ := exists_firstBound hbound
    have hne : words a ≠ 0 := by
      intro hz
      rw [hz] at hn
      simp at hn
    obtain ⟨c, hc, hindex, hword, hbits⟩ := call_of_firstBound (k := 0) hi
    refine Or.inr ⟨c, hc, hword, by rw [hbits]; exact hn, ?_⟩
    rw [hindex, Nat.zero_add]
    exact hall a i hi hne

/-- Two events with pending bits, bound to the groups 7 and 8. -/
def twoEvents : Table ℕ := [⟨1, some 7, 16⟩, ⟨2, some 8, 32⟩]

/-- The second call is refused, and its bit is gone. -/
theorem refused_bit_is_lost : ∃ words' log,
    osEnvEventIsr (fun _ => [false, false]) twoEvents (fun _ => 1) [] = some (words', log) ∧
      ¬ BitsKept twoEvents (fun _ => 1) words' (· == 0) := by
  obtain ⟨words', log, hrun⟩ : ∃ words' log,
      osEnvEventIsr (fun _ => [false, false]) twoEvents (fun _ => 1) [] = some (words', log) :=
    osEnvEventIsr_ends (fun _ => by decide) twoEvents (fun _ => 1) []
  refine ⟨words', log, hrun, fun hkept => ?_⟩
  obtain ⟨-, -, -, hzero, -⟩ := osEnvEventIsr_spec hrun
  have hw : words' 32 = 0 := hzero ⟨2, some 8, 32⟩ (by decide) (by decide)
  rcases hkept 32 ⟨⟨2, some 8, 32⟩, by decide, by decide⟩ 0 (by decide) with hset | ⟨c, hc, hrest⟩
  · rw [hw] at hset
    simp at hset
  · revert hrest
    simp only [isrCalls, twoEvents, List.mem_cons, List.not_mem_nil, or_false] at hc
    rcases hc with rfl | rfl
    · simp
    · simp

/-- With both calls accepted the bits are in their groups. -/
theorem accepted_bits_are_kept : ∃ words' log,
    osEnvEventIsr (fun _ => [false, false]) twoEvents (fun _ => 1) [] = some (words', log) ∧
      BitsKept twoEvents (fun _ => 1) words' fun _ => true := by
  obtain ⟨words', log, hrun, -, hiff⟩ := event_isr_keeps_bits_iff twoEvents (fun _ => 1)
    (fun _ => true) (fun _ => [false, false]) (fun _ => by decide)
  exact ⟨words', log, hrun, hiff.mpr fun _ _ _ _ => rfl⟩

end EspAmp.EventRefusal
