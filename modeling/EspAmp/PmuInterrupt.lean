import EspAmp.SoftwareInterrupt

/-!
# The main core's shared PMU interrupt

The main core shares one PMU interrupt line between the subcore's software
interrupt and other PMU causes. The wrapper reads the software status, clears the
latch, and only then looks at the status it read: the handler runs if that was set.
Register accesses, atomic accesses and visited table slots are single steps, and
any number of subcore contexts trigger in between.
-/
namespace EspAmp.PmuInterrupt
open AtomicWord ReplyMachine
open SoftwareInterrupt (Slot Isr addHandler deleteHandler visitSlot afterAttempt attempt_cases)

/-- `pmu_sw_intr_handler`: not running, entered, holding the `is_sw_intr` it read,
or behind its clear, where it runs the software interrupt handler or returns. -/
inductive Wrapper where
  | idle
  | entered
  | sampled (isSwIntr : Bool)
  | handler (isr : Isr)
deriving DecidableEq, Repr

/-- The handler is going to look at the pending word. -/
def Wrapper.willTake : Wrapper → Bool
  | .idle | .entered => false
  | .sampled isSwIntr => isSwIntr
  | .handler isr => isr.beforeFinal

/-- The pending word is `main_core_sw_intr_st`, the latch `int_st.sw`; `otherCause`
tells whether another PMU cause is active. -/
structure State (H A : Type) where
  pending : BitVec 32
  latch : Bool
  otherCause : Bool
  armed : ℕ → Bool
  wrapper : Wrapper
  table : List (Slot H A)

inductive Label (H A : Type) where
  | trigger (c : ℕ) (intrId : Fin 32)
  | setLatch (c : ℕ)
  | cause (active : Bool)
  | enter
  | read
  | clear
  | attempt (spurious : Bool)
  | visit (i : ℕ) (called : Option (Slot H A))
  | again
  | ret
  | add (slot : Slot H A)
  | delete (intrId : Fin 32) (handler : Option H)

inductive Step {H A : Type} [DecidableEq H] : State H A → Label H A → State H A → Prop
  | trigger {s : State H A} {c : ℕ} (intrId : Fin 32) : s.armed c = false →
      Step s (.trigger c intrId)
        { s with pending := (fetchOr s.pending (bit intrId)).2,
                 armed := Function.update s.armed c true }
  | setLatch {s : State H A} {c : ℕ} : s.armed c = true →
      Step s (.setLatch c) { s with latch := true, armed := Function.update s.armed c false }
  | cause {s : State H A} (active : Bool) :
      Step s (.cause active) { s with otherCause := active }
  | enter {s : State H A} : s.wrapper = .idle → s.latch = true ∨ s.otherCause = true →
      Step s .enter { s with wrapper := .entered }
  | read {s : State H A} : s.wrapper = .entered →
      Step s .read { s with wrapper := .sampled s.latch }
  | clear {s : State H A} {isSwIntr : Bool} : s.wrapper = .sampled isSwIntr →
      Step s .clear
        { s with latch := false,
                 wrapper := .handler (if isSwIntr then .exchange 0 else .leaving) }
  | attempt {s : State H A} {u : BitVec 32} (spurious : Bool) :
      s.wrapper = .handler (.exchange u) →
      Step s (.attempt spurious)
        { s with
          pending := (compareExchangeWeak spurious s.pending u 0).word,
          wrapper := .handler (afterAttempt (compareExchangeWeak spurious s.pending u 0)) }
  | visit {s : State H A} {u : BitVec 32} {i : ℕ} {slot : Slot H A} :
      s.wrapper = .handler (.dispatch u i) → s.table[i]? = some slot →
      Step s (.visit i (visitSlot u slot)) { s with wrapper := .handler (.dispatch u (i + 1)) }
  | again {s : State H A} {u : BitVec 32} {i : ℕ} :
      s.wrapper = .handler (.dispatch u i) → s.table.length ≤ i →
      Step s .again { s with wrapper := .handler (.exchange 0) }
  | ret {s : State H A} : s.wrapper = .handler .leaving → Step s .ret { s with wrapper := .idle }
  | add {s : State H A} (slot : Slot H A) : s.wrapper = .idle →
      Step s (.add slot) { s with table := (addHandler slot s.table).2 }
  | delete {s : State H A} (intrId : Fin 32) (handler : Option H) : s.wrapper = .idle →
      Step s (.delete intrId handler) { s with table := deleteHandler intrId handler s.table }

/-- After `esp_amp_sw_intr_init`, with any state of the other causes. -/
def State.start (H : Type) {A : Type} (null : A) (len : ℕ) (otherCause : Bool) : State H A :=
  ⟨0, false, otherCause, fun _ => false, .idle, (SoftwareInterrupt.State.start H null len).table⟩

section Runs
variable {H A : Type} [DecidableEq H] {s t v : State H A} {l : Label H A}

/-- No trigger is between its two steps and the wrapper is not running. -/
def Quiet (s : State H A) : Prop :=
  (∀ c, s.armed c = false) ∧ s.wrapper = .idle

/-- Clearing the latch now wipes no unseen request: the status was read as set, the
latch is clear, nothing is pending, or a trigger is still going to set the latch. -/
def ClearHarmless (s : State H A) : Prop :=
  s.wrapper = .sampled true ∨ s.latch = false ∨ s.pending = 0 ∨ ∃ c, s.armed c = true

/-- A step whose clear, if it is one, wipes no unseen request. -/
def Harmless (s : State H A) (l : Label H A) (t : State H A) : Prop :=
  Step s l t ∧ (l = .clear → ClearHarmless s)

/-- Pending bits are always about to be seen. -/
def Announced (s : State H A) : Prop :=
  s.pending ≠ 0 → s.latch = true ∨ (∃ c, s.armed c = true) ∨ s.wrapper.willTake = true

omit [DecidableEq H] in
theorem Announced.not_taking (h : Announced s) (hw : s.wrapper.willTake = false)
    (hne : s.pending ≠ 0) : s.latch = true ∨ ∃ c, s.armed c = true := by
  rcases h hne with h | h | h
  · exact Or.inl h
  · exact Or.inr h
  · rw [hw] at h
    cases h

omit [DecidableEq H] in
theorem announced_of_clear {isSwIntr : Bool} (hw : s.wrapper = .sampled isSwIntr)
    (h : Announced s) (hok : ClearHarmless s) :
    Announced { s with
      latch := false,
      wrapper := .handler (if isSwIntr then .exchange 0 else .leaving) } := by
  intro hne
  cases isSwIntr with
  | true => exact Or.inr (Or.inr rfl)
  | false =>
      have hseen := h.not_taking (by rw [hw]; rfl) hne
      rcases hok with hread | hlatch | hzero | harmed
      · rw [hw] at hread
        cases hread
      · rcases hseen with hset | harmed
        · rw [hlatch] at hset
          cases hset
        · exact Or.inr (Or.inl harmed)
      · exact absurd hzero hne
      · exact Or.inr (Or.inl harmed)

theorem step_announced (hs : Harmless s l t) (h : Announced s) : Announced t := by
  obtain ⟨hs, hok⟩ := hs
  cases hs with
  | trigger intrId harmed => exact fun _ => Or.inr (Or.inl ⟨_, Function.update_self ..⟩)
  | setLatch harmed => exact fun _ => Or.inl rfl
  | cause active => exact h
  | enter hw hcause =>
      intro hne
      exact (h.not_taking (by rw [hw]; rfl) hne).imp_right Or.inl
  | read hw =>
      intro hne
      exact (h.not_taking (by rw [hw]; rfl) hne).imp_right Or.inl
  | clear hw => exact announced_of_clear hw h (hok rfl)
  | @attempt u spurious hw =>
      rcases attempt_cases (H := H) (A := A) spurious s.pending u with
        ⟨-, -, hisr⟩ | ⟨-, -, -, hword, -⟩ | ⟨-, -, -, hword, -⟩
      · exact fun _ => Or.inr (Or.inr (by simp only [hisr]; rfl))
      · exact fun hne => absurd hword hne
      · exact fun hne => absurd hword hne
  | visit hw hslot => exact fun _ => Or.inr (Or.inr rfl)
  | again hw hlen => exact fun _ => Or.inr (Or.inr rfl)
  | ret hw =>
      intro hne
      exact (h.not_taking (by rw [hw]; rfl) hne).imp_right Or.inl
  | add slot hw => exact h
  | delete intrId handler hw => exact h

/-- A clear that wipes an unseen request, and the return behind it, leave pending
bits that no latch announces. -/
theorem clear_loses (hs : Step s l t) (hl : l = .clear) (hok : ¬ ClearHarmless s) :
    ∃ v, Step t .ret v ∧ Quiet v ∧ v.pending ≠ 0 ∧ v.latch = false := by
  unfold ClearHarmless at hok
  push Not at hok
  cases hs with
  | @clear isSwIntr hw =>
      cases isSwIntr with
      | true => exact absurd hw hok.1
      | false =>
          refine ⟨_, .ret rfl, ⟨fun c => ?_, rfl⟩, hok.2.2.1, rfl⟩
          exact Bool.eq_false_iff.mpr (hok.2.2.2 c)
  | _ => cases hl

end Runs

/-- As long as no clear wipes an unseen request, pending bits of a quiet state are
announced by the latch; and every clear that does wipe one loses it. -/
theorem pmu_wrapper_loses_only_unread_latch {H A : Type} [DecidableEq H] (null : A) (len : ℕ)
    (otherCause : Bool) (ls : List (Label H A)) (s : State H A) :
    (Run Harmless (State.start H null len otherCause) ls s → Quiet s → s.pending ≠ 0 →
      s.latch = true) ∧
    ∀ t, Step s .clear t → ¬ ClearHarmless s →
      ∃ v, Step t .ret v ∧ Quiet v ∧ v.pending ≠ 0 ∧ v.latch = false := by
  refine ⟨?_, fun t hs hok => clear_loses hs rfl hok⟩
  intro hrun hquiet hne
  have hannounced : Announced s :=
    hrun.invariant (fun _ _ _ hs h => step_announced hs h) fun hne => absurd rfl hne
  rcases hannounced.not_taking (by rw [hquiet.2]; rfl) hne with hlatch | ⟨c, hc⟩
  · exact hlatch
  · rw [hquiet.1 c] at hc
    cases hc

/-- The contexts after context 0 has set the latch. -/
def disarmed : ℕ → Bool := Function.update (Function.update (fun _ => false) 0 true) 0 false

theorem disarmed_eq (c : ℕ) : disarmed c = false := by
  rw [disarmed, Function.update_idem, Function.update_eq_self]

/-- One request of id 3 is pending, with a given latch and position of the wrapper. -/
def requested (latch : Bool) (wrapper : Wrapper) : State ℕ ℕ :=
  ⟨8, latch, true, disarmed, wrapper, (State.start ℕ 0 1 true).table⟩

/-- Another cause enters the wrapper, which reads a clear status; a whole trigger
then lands in front of the clear. -/
theorem unseen_run : Run Step (State.start ℕ 0 1 true) [.enter, .read, .trigger 0 3, .setLatch 0]
    (requested true (.sampled false)) := by
  refine .next (.enter rfl (Or.inr rfl)) ?_
  refine .next (.read rfl) ?_
  refine .next (.trigger 3 rfl) ?_
  exact .single (.setLatch rfl)

theorem trigger_between_read_and_clear_is_lost :
    ¬ ∀ (ls : List (Label ℕ ℕ)) (s : State ℕ ℕ), Run Step (State.start ℕ 0 1 true) ls s →
      Quiet s → s.pending ≠ 0 → s.latch = true := by
  intro h
  have hrest : Run Step (requested true (.sampled false)) [.clear, .ret] (requested false .idle) :=
    .next (.clear rfl) (.single (.ret rfl))
  cases h _ _ (unseen_run.append hrest) ⟨disarmed_eq, rfl⟩ (by decide)

def thirdId : Fin 32 := ⟨3, by decide⟩

/-- A request is served through a clear behind a set status, and another one follows. -/
def twoRequests : List (Label ℕ ℕ) :=
  [.trigger 0 thirdId, .setLatch 0, .enter, .read, .clear, .attempt false, .attempt false,
    .visit 0 none, .again, .attempt false, .ret, .trigger 0 thirdId, .setLatch 0]

/-- The contexts after context 0 has set the latch again. -/
def disarmedAgain : ℕ → Bool := Function.update (Function.update disarmed 0 true) 0 false

theorem disarmedAgain_eq (c : ℕ) : disarmedAgain c = false := by
  rw [disarmedAgain, Function.update_idem, Function.update_apply]
  split_ifs
  · rfl
  · exact disarmed_eq c

def requestedAgain : State ℕ ℕ :=
  ⟨8, true, true, disarmedAgain, .idle, (State.start ℕ 0 1 true).table⟩

theorem harmless_step {s t : State ℕ ℕ} {l : Label ℕ ℕ} (hs : Step s l t) (hl : l ≠ .clear) :
    Harmless s l t :=
  ⟨hs, fun h => absurd h hl⟩

theorem twoRequests_run : Run Harmless (State.start ℕ 0 1 true) twoRequests requestedAgain := by
  refine .next (harmless_step (.trigger thirdId rfl) (by simp)) ?_
  refine .next (harmless_step (.setLatch rfl) (by simp)) ?_
  refine .next (harmless_step (.enter rfl (.inl rfl)) (by simp)) ?_
  refine .next (harmless_step (.read rfl) (by simp)) ?_
  refine .next ⟨.clear rfl, fun _ => .inl rfl⟩ ?_
  refine .next (harmless_step (.attempt false rfl) (by simp)) ?_
  refine .next (harmless_step (.attempt false rfl) (by simp)) ?_
  refine .next (harmless_step (@Step.visit _ _ _ _ 8 0 ⟨0, none, 0⟩ rfl rfl) (by simp)) ?_
  refine .next (harmless_step (.again rfl (Nat.le_refl 1)) (by simp)) ?_
  refine .next (harmless_step (.attempt false rfl) (by simp)) ?_
  refine .next (harmless_step (.ret rfl) (by simp)) ?_
  refine .next (harmless_step (.trigger thirdId rfl) (by simp)) ?_
  exact .single (harmless_step (.setLatch rfl) (by simp))

/-- A request behind a harmless clear is announced; one that lands between the read and the
clear is lost. -/
theorem early_trigger_is_announced :
    (∃ s : State ℕ ℕ, Run Harmless (State.start ℕ 0 1 true) twoRequests s ∧
      Quiet s ∧ s.pending ≠ 0 ∧ s.latch = true) ∧
    ∃ t v, Step (requested true (.sampled false)) .clear t ∧ Step t .ret v ∧ Quiet v ∧
      v.pending ≠ 0 ∧ v.latch = false := by
  have hquiet : Quiet requestedAgain := ⟨disarmedAgain_eq, rfl⟩
  have hne : requestedAgain.pending ≠ 0 := by decide
  have hwiped : ¬ ClearHarmless (requested true (.sampled false)) := by
    simp [ClearHarmless, requested, disarmed_eq]
  have hclear : Step (requested true (.sampled false)) .clear
      (requested false (.handler .leaving)) :=
    @Step.clear _ _ _ (requested true (.sampled false)) false rfl
  refine ⟨⟨requestedAgain, twoRequests_run, hquiet, hne, ?_⟩,
    requested false (.handler .leaving), ?_⟩
  · exact (pmu_wrapper_loses_only_unread_latch 0 1 true _ _).1 twoRequests_run hquiet hne
  · obtain ⟨v, hv⟩ :=
      (pmu_wrapper_loses_only_unread_latch 0 1 true [] _).2 _ hclear hwiped
    exact ⟨v, hclear, hv⟩

end EspAmp.PmuInterrupt
