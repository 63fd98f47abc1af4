import EspAmp.SleepLock

/-!
# The wake handshake of light sleep

The subcore runs one context at a time: its main context, or an interrupt handler
that has preempted it outside of a critical section. Every access of the counter
and the trigger behind the critical section is a step of its own, and the main core
decides to sleep, wakes for any reason and takes its interrupt between any two of them.
A context that finds the counter raised returns without a trigger, which is right only
if the context that raised it has already triggered.
-/
namespace EspAmp.LightSleep
open ByteMemory ReplyMachine SleepLock

/-- Where a context stands in the two lock functions. -/
inductive Pc where
  | idle
  | enterRead
  | enterWrite (needTrigger : Bool)
  | enterUnlock (needTrigger : Bool)
  | trigger
  | exitWrite
  | exitUnlock
deriving DecidableEq, Repr

/-- Interrupts are enabled outside of the critical sections. -/
def Pc.interruptible : Pc → Bool
  | .idle | .trigger => true
  | _ => false

/-- Inside the critical section of an enter. -/
def Pc.entering : Pc → Bool
  | .enterRead | .enterWrite _ | .enterUnlock _ => true
  | _ => false

/-- The counter contains this call, which holds nothing. -/
def Pc.counted : Pc → ℕ
  | .enterUnlock _ | .trigger | .exitWrite => 1
  | _ => 0

/-- An enter that has not returned, or an exit that has not lowered the counter. -/
def Pc.begun : Pc → ℕ
  | .idle | .exitUnlock => 0
  | _ => 1

/-- `front` is the running context and `below` the one that it preempted. `held`
counts the enters that have returned and whose exit has not been called. -/
structure State where
  cnt : U8
  asleep : Bool
  latch : Bool
  front : Pc
  below : Option Pc
  held : ℕ
deriving DecidableEq, Repr

def State.start (asleep : Bool) : State := ⟨0, asleep, false, .idle, none, 0⟩

def belowCounted (below : Option Pc) : ℕ := below.elim 0 Pc.counted
def belowBegun (below : Option Pc) : ℕ := below.elim 0 Pc.begun

/-- Enters whose matching exit has not lowered the counter yet. -/
def State.outstanding (s : State) : ℕ := s.held + s.front.begun + belowBegun s.below

/-- One step of the running context inside a lock function. -/
def advance (s : State) : Option State :=
  match s.front with
  | .idle => none
  | .enterRead => some { s with front := .enterWrite (skipLightSleepEnter s.cnt).2 }
  | .enterWrite needTrigger =>
      some { s with front := .enterUnlock needTrigger, cnt := (skipLightSleepEnter s.cnt).1 }
  | .enterUnlock needTrigger =>
      if needTrigger then some { s with front := .trigger }
      else some { s with front := .idle, held := s.held + 1 }
  | .trigger => some { s with front := .idle, held := s.held + 1, latch := true }
  | .exitWrite =>
      match skipLightSleepExit s.cnt with
      | none => none
      | some cnt => some { s with front := .exitUnlock, cnt := cnt }
  | .exitUnlock => some { s with front := .idle }

inductive Label where
  | sleep | wake | handle | preempt | resume | callEnter | callExit | advance
deriving DecidableEq, Repr

inductive Step : State → Label → State → Prop
  | sleep {s : State} : s.asleep = false → maincoreCheckLsCtrl s.cnt = false →
      s.latch = false → Step s .sleep { s with asleep := true }
  | wake {s : State} : s.asleep = true → Step s .wake { s with asleep := false }
  | handle {s : State} : s.asleep = false → Step s .handle { s with latch := false }
  | preempt {s : State} : s.below = none → s.front.interruptible = true →
      Step s .preempt { s with front := .idle, below := some s.front }
  | resume {s : State} {p : Pc} : s.below = some p → s.front = .idle →
      Step s .resume { s with front := p, below := none }
  | callEnter {s : State} : s.front = .idle → s.outstanding < 255 →
      Step s .callEnter { s with front := .enterRead }
  | callExit {s : State} : s.front = .idle → 0 < s.held →
      Step s .callExit { s with front := .exitWrite, held := s.held - 1 }
  | advance {s t : State} : advance s = some t → Step s .advance t

/-- The main core is awake or has been asked to wake up. -/
def State.Awake (s : State) : Prop := s.asleep = false ∨ s.latch = true

/-- No handler calls the enter function while the context it interrupted is between
its critical section and its trigger and the main core sleeps without a request. -/
def NoEnterInWindow (s : State) : Label → Prop
  | .callEnter => s.below = some .trigger → s.Awake
  | _ => True

structure Inv (s : State) : Prop where
  counted : s.cnt.toNat = s.held + s.front.counted + belowCounted s.below
  room : s.outstanding ≤ 255
  paused : ∀ p, s.below = some p → p = .idle ∨ p = .trigger
  awake : 0 < s.held → s.Awake
  found : s.front = .enterWrite false ∨ s.front = .enterUnlock false →
    s.Awake ∧ 0 < s.cnt.toNat
  window : s.below = some .trigger → s.front.entering = true → s.Awake

theorem start_inv (asleep : Bool) : Inv (State.start asleep) := by
  constructor
  · rfl
  · exact Nat.zero_le 255
  · intro p hp
    cases hp
  · intro h
    cases h
  · rintro (h | h) <;> cases h
  · intro h
    cases h

section Steps
variable {s t : State}

theorem Inv.sleep (hs : Inv s) (hcheck : maincoreCheckLsCtrl s.cnt = false) :
    Inv { s with asleep := true } := by
  have hcnt : s.cnt.toNat = 0 := by
    have hnot : ¬ 0 < s.cnt := of_decide_eq_false hcheck
    bv_omega
  have hcounted := hs.counted
  refine ⟨hs.counted, hs.room, hs.paused, ?_, ?_, ?_⟩
  · intro hheld
    change 0 < s.held at hheld
    omega
  · intro hfront
    have hpos := (hs.found hfront).2
    omega
  · intro hbelow _
    change s.below = some .trigger at hbelow
    rw [hbelow] at hcounted
    simp only [belowCounted, Option.elim_some, Pc.counted] at hcounted
    omega

/-- The main core woke up, or took its interrupt while awake. -/
theorem Inv.of_awake (hs : Inv s) {asleep latch : Bool} (h : asleep = false) :
    Inv { s with asleep := asleep, latch := latch } :=
  ⟨hs.counted, hs.room, hs.paused, fun _ => Or.inl h, fun hf => ⟨Or.inl h, (hs.found hf).2⟩,
    fun _ _ => Or.inl h⟩

theorem Inv.preempt (hs : Inv s) (hbelow : s.below = none) (hfront : s.front.interruptible = true) :
    Inv { s with front := .idle, below := some s.front } := by
  have hcounted := hs.counted
  have hroom := hs.room
  simp only [State.outstanding, hbelow, belowCounted, belowBegun,
    Option.elim_none] at hcounted hroom
  refine ⟨?_, ?_, ?_, hs.awake, ?_, ?_⟩
  · simp only [belowCounted, Option.elim_some, Pc.counted]
    exact hcounted
  · simp only [State.outstanding, belowBegun, Option.elim_some, Pc.begun]
    exact hroom
  · rintro p ⟨⟩
    cases hp : s.front <;> simp_all [Pc.interruptible]
  · rintro (h | h) <;> cases h
  · intro _ h
    cases h

theorem Inv.resume (hs : Inv s) {p : Pc} (hbelow : s.below = some p) (hfront : s.front = .idle) :
    Inv { s with front := p, below := none } := by
  have hcounted := hs.counted
  have hroom := hs.room
  simp only [State.outstanding, hbelow, hfront, belowCounted, belowBegun, Option.elim_some,
    Pc.counted, Pc.begun] at hcounted hroom
  refine ⟨hcounted, hroom, ?_, hs.awake, ?_, ?_⟩
  · intro q hq
    cases hq
  · rintro (rfl | rfl) <;> rcases hs.paused _ hbelow with h | h <;> cases h
  · intro h
    cases h

theorem Inv.callEnter (hs : Inv s) (hfront : s.front = .idle) (hlt : s.outstanding < 255)
    (hwin : s.below = some .trigger → s.Awake) : Inv { s with front := .enterRead } := by
  have hcounted := hs.counted
  rw [State.outstanding, hfront] at hlt
  rw [hfront] at hcounted
  refine ⟨hcounted, ?_, hs.paused, hs.awake, ?_, fun h _ => hwin h⟩
  · simp only [State.outstanding, Pc.begun] at hlt ⊢
    omega
  · rintro (h | h) <;> cases h

theorem Inv.callExit (hs : Inv s) (hfront : s.front = .idle) (hheld : 0 < s.held) :
    Inv { s with front := .exitWrite, held := s.held - 1 } := by
  have hcounted := hs.counted
  have hroom := hs.room
  rw [hfront] at hcounted
  rw [State.outstanding, hfront] at hroom
  simp only [Pc.counted, Pc.begun] at hcounted hroom
  refine ⟨?_, ?_, hs.paused, fun _ => hs.awake hheld, ?_, ?_⟩
  · simp only [Pc.counted]
    omega
  · simp only [State.outstanding, Pc.begun]
    omega
  · rintro (h | h) <;> cases h
  · intro _ h
    cases h

/-- A raised counter that the running context finds was raised by an enter that has
returned, or by the context that waits below. -/
theorem Inv.read (hs : Inv s) (hfront : s.front = .enterRead) :
    Inv { s with front := .enterWrite (skipLightSleepEnter s.cnt).2 } := by
  have hcounted := hs.counted
  have hroom := hs.room
  rw [hfront] at hcounted
  rw [State.outstanding, hfront] at hroom
  refine ⟨hcounted, hroom, hs.paused, hs.awake, ?_, fun h _ => hs.window h (by rw [hfront]; rfl)⟩
  rintro (h | h)
  · injection h with h
    have hne : s.cnt ≠ 0 := by simpa [skipLightSleepEnter] using h
    have hpos : 0 < s.cnt.toNat := by bv_omega
    refine ⟨?_, hpos⟩
    by_cases hheld : 0 < s.held
    · exact hs.awake hheld
    · apply hs.window _ (by rw [hfront]; rfl)
      cases hb : s.below with
      | none =>
          simp only [hb, belowCounted, Option.elim_none, Pc.counted] at hcounted
          omega
      | some p =>
          rcases hs.paused p hb with rfl | rfl
          · simp only [hb, belowCounted, Option.elim_some, Pc.counted] at hcounted
            omega
          · rfl
  · cases h

theorem belowCounted_le (below : Option Pc) : belowCounted below ≤ belowBegun below := by
  cases below with
  | none => exact le_rfl
  | some p => cases p <;> simp [belowCounted, belowBegun, Pc.counted, Pc.begun]

theorem Inv.write (hs : Inv s) {need : Bool} (hfront : s.front = .enterWrite need) :
    Inv { s with front := .enterUnlock need, cnt := (skipLightSleepEnter s.cnt).1 } := by
  have hcounted := hs.counted
  have hroom := hs.room
  have hle := belowCounted_le s.below
  rw [hfront] at hcounted
  rw [State.outstanding, hfront] at hroom
  simp only [Pc.counted, Pc.begun] at hcounted hroom
  have hcnt := enter_toNat (show s.cnt.toNat < 255 by omega)
  refine ⟨?_, hroom, hs.paused, hs.awake, ?_, fun h _ => hs.window h (by rw [hfront]; rfl)⟩
  · simp only [Pc.counted]
    omega
  · rintro (h | h)
    · cases h
    · cases h
      exact ⟨(hs.found (Or.inl hfront)).1, by rw [hcnt]; omega⟩

/-- The running context returns from the enter function. -/
theorem Inv.returned (hs : Inv s) (hfront : s.front = .enterUnlock false ∨ s.front = .trigger)
    (latch : Bool) (hawake : State.Awake { s with latch := latch }) :
    Inv { s with front := .idle, held := s.held + 1, latch := latch } := by
  have hcounted := hs.counted
  have hroom := hs.room
  rw [State.outstanding] at hroom
  have hone : s.front.counted = 1 ∧ s.front.begun = 1 := by
    rcases hfront with h | h <;> rw [h] <;> exact ⟨rfl, rfl⟩
  refine ⟨?_, ?_, hs.paused, fun _ => hawake, ?_, ?_⟩
  · simp only [Pc.counted]
    omega
  · simp only [State.outstanding, Pc.begun]
    omega
  · rintro (h | h) <;> cases h
  · intro _ h
    cases h

/-- The running context moves on without touching the counter. -/
theorem Inv.move (hs : Inv s) {p : Pc} (hcounted : p.counted = s.front.counted)
    (hbegun : p.begun = s.front.begun) (hp : p.entering = false) : Inv { s with front := p } := by
  refine ⟨?_, ?_, hs.paused, hs.awake, ?_, ?_⟩
  · have h := hs.counted
    rwa [← hcounted] at h
  · have h := hs.room
    rwa [State.outstanding, ← hbegun] at h
  · intro h
    change p = .enterWrite false ∨ p = .enterUnlock false at h
    rcases h with rfl | rfl <;> cases hp
  · intro _ h
    change p.entering = true at h
    rw [hp] at h
    cases h

/-- The exit function never fails its assertion. -/
theorem Inv.exit_counted (hs : Inv s) (hfront : s.front = .exitWrite) : 0 < s.cnt.toNat := by
  have hcounted := hs.counted
  rw [hfront] at hcounted
  simp only [Pc.counted] at hcounted
  omega

theorem Inv.lower (hs : Inv s) (hfront : s.front = .exitWrite) {cnt : U8}
    (hexit : skipLightSleepExit s.cnt = some cnt) :
    Inv { s with front := .exitUnlock, cnt := cnt } := by
  have hcounted := hs.counted
  have hroom := hs.room
  rw [hfront] at hcounted
  rw [State.outstanding, hfront] at hroom
  simp only [Pc.counted, Pc.begun] at hcounted hroom
  obtain ⟨cnt', hexit', hcnt⟩ := exit_of_pos (hs.exit_counted hfront)
  obtain rfl := Option.some.inj (hexit.symm.trans hexit')
  refine ⟨?_, ?_, hs.paused, hs.awake, ?_, ?_⟩
  · simp only [Pc.counted]
    omega
  · simp only [State.outstanding, Pc.begun]
    omega
  · rintro (h | h) <;> cases h
  · intro _ h
    cases h

theorem Inv.advance (hs : Inv s) (h : advance s = some t) : Inv t := by
  rw [LightSleep.advance] at h
  cases hfront : s.front with
  | idle => simp [hfront] at h
  | enterRead =>
      simp only [hfront, Option.some.injEq] at h
      exact h ▸ hs.read hfront
  | enterWrite need =>
      simp only [hfront, Option.some.injEq] at h
      exact h ▸ hs.write hfront
  | enterUnlock need =>
      cases need with
      | true =>
          simp only [hfront, if_true, Option.some.injEq] at h
          exact h ▸ hs.move (by rw [hfront]; rfl) (by rw [hfront]; rfl) rfl
      | false =>
          simp only [hfront, Bool.false_eq_true, if_false, Option.some.injEq] at h
          exact h ▸ hs.returned (Or.inl hfront) s.latch (hs.found (Or.inr hfront)).1
  | trigger =>
      simp only [hfront, Option.some.injEq] at h
      exact h ▸ hs.returned (Or.inr hfront) true (Or.inr rfl)
  | exitWrite =>
      cases hexit : skipLightSleepExit s.cnt with
      | none => simp [hfront, hexit] at h
      | some cnt =>
          simp only [hfront, hexit, Option.some.injEq] at h
          exact h ▸ hs.lower hfront hexit
  | exitUnlock =>
      simp only [hfront, Option.some.injEq] at h
      exact h ▸ hs.move (by rw [hfront]; rfl) (by rw [hfront]; rfl) rfl

theorem step_inv {l : Label} (h : Step s l t) (hwin : NoEnterInWindow s l) (hs : Inv s) :
    Inv t := by
  cases h with
  | sleep _ hcheck _ => exact hs.sleep hcheck
  | wake _ => exact hs.of_awake rfl
  | handle hawake => exact hs.of_awake hawake
  | preempt hbelow hfront => exact hs.preempt hbelow hfront
  | resume hbelow hfront => exact hs.resume hbelow hfront
  | callEnter hfront hlt => exact hs.callEnter hfront hlt hwin
  | callExit hfront hheld => exact hs.callExit hfront hheld
  | advance h => exact hs.advance h

end Steps

/-- In every interleaving of the two contexts and the main core in which no handler
enters inside the window of the context it interrupted, a context that has returned
from enter and not yet called exit finds the main core awake or about to wake. -/
theorem awake_while_entered (asleep : Bool) (ls : List Label) (s : State)
    (hrun : Run (fun s l t => Step s l t ∧ NoEnterInWindow s l) (State.start asleep) ls s) :
    0 < s.held → s.asleep = false ∨ s.latch = true :=
  (Run.invariant (P := Inv) (fun _ _ _ hst hs => step_inv hst.1 hst.2 hs) hrun
    (start_inv asleep)).awake

/-- The main context wakes the main core, and a handler then enters as well. -/
theorem two_contexts_awake : ∃ s, Run (fun s l t => Step s l t ∧ NoEnterInWindow s l)
      (State.start true)
      [.callEnter, .advance, .advance, .advance, .advance, .preempt, .callEnter, .advance,
        .advance, .advance] s ∧
    s.held = 2 ∧ (s.asleep = false ∨ s.latch = true) := by
  have hrun : Run (fun s l t => Step s l t ∧ NoEnterInWindow s l) (State.start true)
      [.callEnter, .advance, .advance, .advance, .advance, .preempt, .callEnter, .advance,
        .advance, .advance] ⟨2, true, true, .idle, some .idle, 2⟩ :=
    .next ⟨.callEnter rfl (by decide), fun h => by cases h⟩ (.next ⟨.advance rfl, trivial⟩
      (.next ⟨.advance rfl, trivial⟩ (.next ⟨.advance rfl, trivial⟩ (.next ⟨.advance rfl, trivial⟩
        (.next ⟨.preempt rfl rfl, trivial⟩ (.next ⟨.callEnter rfl (by decide), fun h => by cases h⟩
          (.next ⟨.advance rfl, trivial⟩ (.next ⟨.advance rfl, trivial⟩
            (.single ⟨.advance rfl, trivial⟩)))))))))
  exact ⟨_, hrun, rfl, awake_while_entered true _ _ hrun (by decide)⟩

/-- The handler enters between the critical section of the main context and its
trigger: it finds the counter raised, returns, and the main core still sleeps. -/
theorem handler_enters_asleep : ∃ s, Run Step (State.start false)
      [.sleep, .callEnter, .advance, .advance, .advance, .preempt, .callEnter, .advance, .advance,
        .advance] s ∧
    ¬ (0 < s.held → s.asleep = false ∨ s.latch = true) := by
  have hrun : Run Step (State.start false)
      [.sleep, .callEnter, .advance, .advance, .advance, .preempt, .callEnter, .advance, .advance,
        .advance] ⟨2, true, false, .idle, some .trigger, 1⟩ :=
    .next (.sleep rfl rfl rfl) (.next (.callEnter rfl (by decide)) (.next (.advance rfl)
      (.next (.advance rfl) (.next (.advance rfl) (.next (.preempt rfl rfl)
        (.next (.callEnter rfl (by decide)) (.next (.advance rfl) (.next (.advance rfl)
          (.single (.advance rfl))))))))))
  exact ⟨_, hrun, by decide⟩

end EspAmp.LightSleep
