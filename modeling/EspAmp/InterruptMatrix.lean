import EspAmp.PmuInterrupt

/-!
# Software interrupts through the interrupt matrix

Between two HP cores each direction has an interrupt line of its own, held high by bit 0
of its register until the wrapper writes zero. The wrapper has the body of the PMU
wrapper, but nothing else can enter it. It therefore always reads the bit as set, and is
indistinguishable from the routine of the LP core, which clears first and never asks.
-/
namespace EspAmp.InterruptMatrix
open ReplyMachine
open SoftwareInterrupt (Slot Isr attemptLabel attempt_cases Ahead step_slot step_ahead trigger_inv)
open PmuInterrupt (State Label Wrapper Quiet)

section Model
variable {H A : Type}

/-- `intmtx_sw_intr_handler` and the calls around it: the latch is bit 0 of the register,
which only the trigger of the other core sets. -/
def IntmtxStep [DecidableEq H] (s : State H A) (l : Label H A) (t : State H A) : Prop :=
  PmuInterrupt.Step s l t ∧ ∀ active, l ≠ .cause active

def start (H : Type) {A : Type} (null : A) (len : ℕ) : State H A :=
  PmuInterrupt.State.start H null len false

/-- Where the routine without a status check stands. -/
def isrOf : Wrapper → Isr
  | .idle => .idle
  | .entered | .sampled _ => .entered
  | .handler isr => isr

def direct (s : State H A) : SoftwareInterrupt.State H A :=
  ⟨s.pending, s.latch, s.armed, isrOf s.wrapper, s.table⟩

/-- What is seen of a step: everything but the status read and the outcome of a
compare-exchange attempt. -/
def seen : Label H A → List (SoftwareInterrupt.Label H A)
  | .trigger c intrId => [.trigger c intrId]
  | .setLatch c => [.setLatch c]
  | .cause _ | .read | .attempt _ => []
  | .enter => [.enter]
  | .clear => [.clear]
  | .visit i called => [.visit i called]
  | .again => [.again]
  | .ret => [.ret]
  | .add slot => [.add slot]
  | .delete intrId handler => [.delete intrId handler]

def seenDirect : SoftwareInterrupt.Label H A → List (SoftwareInterrupt.Label H A)
  | .retry | .take _ | .finish => []
  | l => [l]

/-- The line stays high from the entry to the clear, and the handler is entered only behind
the clear. -/
structure Level (s : State H A) : Prop where
  alone : s.otherCause = false
  entered : s.wrapper = .entered → s.latch = true
  sampled : s.wrapper ≠ .sampled false
  handler : s.wrapper ≠ .handler .idle ∧ s.wrapper ≠ .handler .entered

end Model

section Simulation
variable {H A : Type} [DecidableEq H] {s t v : State H A} {l : Label H A} {e : Slot H A}
  {d : SoftwareInterrupt.State H A} {ls ks : List (Label H A)}

omit [DecidableEq H] in
theorem seenDirect_attempt (x : AtomicWord.Exchange 32) :
    seenDirect (attemptLabel x : SoftwareInterrupt.Label H A) = [] := by
  unfold attemptLabel
  split_ifs <;> rfl

omit [DecidableEq H] in
/-- A wrapper that is not running, over a line of its own. -/
theorem level_of_idle (halone : s.otherCause = false) (hw : s.wrapper = .idle) : Level s where
  alone := halone
  entered hentered := by cases hw.symm.trans hentered
  sampled := by simp [hw]
  handler := by simp [hw]

omit [DecidableEq H] in
theorem afterAttempt_handler (x : AtomicWord.Exchange 32) :
    Wrapper.handler (SoftwareInterrupt.afterAttempt x) ≠ .handler .idle ∧
      Wrapper.handler (SoftwareInterrupt.afterAttempt x) ≠ .handler .entered := by
  unfold SoftwareInterrupt.afterAttempt
  split_ifs <;> simp

theorem step_level (hs : IntmtxStep s l t) (h : Level s) : Level t := by
  obtain ⟨hs, hcause⟩ := hs
  cases hs with
  | trigger intrId harmed => exact ⟨h.alone, h.entered, h.sampled, h.handler⟩
  | setLatch harmed => exact ⟨h.alone, fun _ => rfl, h.sampled, h.handler⟩
  | cause active => exact absurd rfl (hcause active)
  | enter hw hline =>
      refine ⟨h.alone, fun _ => ?_, by simp, by simp⟩
      exact hline.resolve_right (by simp [h.alone])
  | read hw => exact ⟨h.alone, by simp, by simp [h.entered hw], by simp⟩
  | @clear isSwIntr hw =>
      refine ⟨h.alone, by simp, by simp, ?_⟩
      cases isSwIntr <;> simp
  | attempt spurious hw => exact ⟨h.alone, by simp, by simp, afterAttempt_handler _⟩
  | visit hw hslot => exact ⟨h.alone, by simp, by simp, by simp⟩
  | again hw hlen => exact ⟨h.alone, by simp, by simp, by simp⟩
  | ret hw => exact level_of_idle h.alone rfl
  | add slot hw => exact ⟨h.alone, h.entered, h.sampled, h.handler⟩
  | delete intrId handler hw => exact ⟨h.alone, h.entered, h.sampled, h.handler⟩

/-- A step of the wrapper is a step of the routine without a status check, or the status
read. -/
theorem step_direct (hs : IntmtxStep s l t) (h : Level s) :
    (seen l = [] ∧ direct t = direct s) ∨
      ∃ k, SoftwareInterrupt.Step (direct s) k (direct t) ∧ seenDirect k = seen l := by
  obtain ⟨hs, hcause⟩ := hs
  cases hs with
  | trigger intrId harmed => exact .inr ⟨_, .trigger intrId harmed, rfl⟩
  | setLatch harmed => exact .inr ⟨_, .setLatch harmed, rfl⟩
  | cause active => exact absurd rfl (hcause active)
  | enter hw hline =>
      have hlatch : s.latch = true := hline.resolve_right (by simp [h.alone])
      exact .inr ⟨.enter, .enter (by simp [direct, hw, isrOf]) hlatch, rfl⟩
  | read hw => exact .inl ⟨rfl, by simp [direct, hw, isrOf]⟩
  | @clear isSwIntr hw =>
      cases isSwIntr with
      | true => exact .inr ⟨.clear, .clear (by simp [direct, hw, isrOf]), rfl⟩
      | false => exact absurd hw h.sampled
  | @attempt u spurious hw =>
      have hisr : (direct s).isr = .exchange u := by simp [direct, hw, isrOf]
      exact .inr ⟨_, .attempt spurious hisr, seenDirect_attempt _⟩
  | @visit u i slot hw hslot =>
      have hisr : (direct s).isr = .dispatch u i := by simp [direct, hw, isrOf]
      exact .inr ⟨_, .visit hisr hslot, rfl⟩
  | @again u i hw hlen =>
      have hisr : (direct s).isr = .dispatch u i := by simp [direct, hw, isrOf]
      exact .inr ⟨.again, .again hisr hlen, rfl⟩
  | ret hw => exact .inr ⟨.ret, .ret (by simp [direct, hw, isrOf]), rfl⟩
  | add slot hw => exact .inr ⟨_, .add slot (by simp [direct, hw, isrOf]), rfl⟩
  | delete intrId handler hw =>
      exact .inr ⟨_, .delete intrId handler (by simp [direct, hw, isrOf]), rfl⟩

/-- The same relation read as a simulation. -/
def Simulates (s : State H A) (d : SoftwareInterrupt.State H A) : Prop :=
  Level s ∧ d = direct s

theorem simulates_step (h : Simulates s d) (hs : IntmtxStep s l t) :
    ∃ ks d', Run SoftwareInterrupt.Step d ks d' ∧ Simulates t d' ∧
      ks.flatMap seenDirect = seen l := by
  obtain ⟨hlevel, rfl⟩ := h
  rcases step_direct hs hlevel with ⟨hseen, hdirect⟩ | ⟨k, hk, hseen⟩
  · exact ⟨[], _, .done _, ⟨step_level hs hlevel, hdirect.symm⟩, hseen.symm⟩
  · refine ⟨[k], _, .single hk, ⟨step_level hs hlevel, rfl⟩, ?_⟩
    rw [List.flatMap_singleton, hseen]

/-- A step after which the entry is registered. -/
def Keeps (e : Slot H A) (s : State H A) (l : Label H A) (t : State H A) : Prop :=
  IntmtxStep s l t ∧ e ∈ t.table

/-- The bit of a registered entry stays ahead until the entry is called. -/
theorem keeps_ahead (hs : Keeps e s l t) (hlevel : Level s) {i : ℕ}
    (he : s.table[i]? = some e) (hh : e.handler ≠ none) (h : Ahead e i (direct s)) :
    t.table[i]? = some e ∧ (l = .visit i (some e) ∨ Ahead e i (direct t)) := by
  rcases step_direct hs.1 hlevel with ⟨-, hdirect⟩ | ⟨k, hk, hseen⟩
  · have htable : t.table = s.table := congrArg SoftwareInterrupt.State.table hdirect
    exact ⟨htable ▸ he, .inr (hdirect ▸ h)⟩
  · refine ⟨step_slot hk he hh hs.2, ?_⟩
    rcases step_ahead hk he hh h with rfl | hahead
    · cases l <;> simp_all [seen, seenDirect]
    · exact .inr hahead

theorem trigger_ahead {c : ℕ} {i : ℕ} (hs : IntmtxStep s (.trigger c e.intrId) t)
    (he : s.table[i]? = some e) : t.table[i]? = some e ∧ Ahead e i (direct t) := by
  obtain ⟨hs, -⟩ := hs
  cases hs with
  | trigger intrId harmed =>
      refine ⟨he, .inl ?_⟩
      have hstep : SoftwareInterrupt.Step (direct s) (.trigger c e.intrId) _ :=
        .trigger e.intrId harmed
      exact (trigger_inv hstep rfl).1

theorem run_ahead (hrun : Run (Keeps e) s ls t) (hlevel : Level s) {i : ℕ}
    (he : s.table[i]? = some e) (hh : e.handler ≠ none) (h : Ahead e i (direct s)) :
    Label.visit i (some e) ∈ ls ∨ Ahead e i (direct t) := by
  induction hrun with
  | done s => exact .inr h
  | next hs _ ih =>
      obtain ⟨he', hnext⟩ := keeps_ahead hs hlevel he hh h
      rcases hnext with rfl | hahead
      · exact .inl (List.mem_cons_self ..)
      · exact (ih (step_level hs.1 hlevel) he' hahead).imp_left (List.mem_cons_of_mem _)

theorem step_announced (hs : IntmtxStep s l t) (hlevel : Level s)
    (h : SoftwareInterrupt.Announced (direct s)) :
    SoftwareInterrupt.Announced (direct t) := by
  rcases step_direct hs hlevel with ⟨-, hdirect⟩ | ⟨k, hk, -⟩
  · exact hdirect ▸ h
  · exact SoftwareInterrupt.step_announced hk h

theorem run_announced (hrun : Run IntmtxStep s ls t) (hlevel : Level s)
    (h : SoftwareInterrupt.Announced (direct s)) :
    Level t ∧ SoftwareInterrupt.Announced (direct t) := by
  induction hrun with
  | done s => exact ⟨hlevel, h⟩
  | next hs _ ih => exact ih (step_level hs hlevel) (step_announced hs hlevel h)

omit [DecidableEq H] in
theorem pending_zero_of_quiet (h : SoftwareInterrupt.Announced (direct s)) (hquiet : Quiet s)
    (hlatch : s.latch = false) : s.pending = 0 := by
  by_contra hne
  rcases h hne with hset | ⟨c, hc⟩ | hisr
  · exact absurd (hset.symm.trans hlatch) (by decide)
  · exact absurd (hc.symm.trans (hquiet.1 c)) (by decide)
  · rw [direct, hquiet.2] at hisr
    cases hisr

omit [DecidableEq H] in
theorem not_ahead_of_quiet (hquiet : Quiet s) (hpending : s.pending = 0) (i : ℕ) :
    ¬ Ahead e i (direct s) := by
  rintro (hbit | ⟨u, j, hisr, -⟩)
  · simp [direct, hpending] at hbit
  · rw [direct, hquiet.2] at hisr
    cases hisr

theorem run_of_keeps (hrun : Run (Keeps e) s ls t) : Run IntmtxStep s ls t := by
  induction hrun with
  | done s => exact .done s
  | next hs _ ih => exact .next hs.1 ih

end Simulation

/-- Every run looks like a run of the routine without a status check. When nothing is under
way and the line is low, nothing is pending, and an entry that stayed registered since a
trigger of its id has been called. -/
theorem intmtx_wrapper_serves_every_trigger {H A : Type} [DecidableEq H] (null : A) (len : ℕ)
    (ls : List (Label H A)) (s : State H A) (hrun : Run IntmtxStep (start H null len) ls s) :
    (∃ ks, Run SoftwareInterrupt.Step (SoftwareInterrupt.State.start H null len) ks (direct s) ∧
      ks.flatMap seenDirect = ls.flatMap seen) ∧
    (Quiet s → s.latch = false → s.pending = 0) ∧
    ∀ (e : Slot H A) (c : ℕ) (t v : State H A) (ks : List (Label H A)),
      e.handler ≠ none → e ∈ s.table → IntmtxStep s (.trigger c e.intrId) t →
      Run (Keeps e) t ks v → Quiet v → v.latch = false → ∃ i, Label.visit i (some e) ∈ ks := by
  obtain ⟨hlevel, hannounced⟩ := run_announced hrun (level_of_idle rfl rfl)
    fun hne => absurd rfl hne
  refine ⟨?_, pending_zero_of_quiet hannounced, ?_⟩
  · have hstart : Simulates (start H null len) (SoftwareInterrupt.State.start H null len) :=
      ⟨level_of_idle rfl rfl, rfl⟩
    obtain ⟨ks, d, hks, ⟨-, rfl⟩, hseen⟩ :=
      hrun.simulate (fun _ _ _ _ h hs => simulates_step h hs) hstart
    exact ⟨ks, hks, hseen⟩
  · intro e c t v ks hh he htrigger hkeeps hquiet hlatch
    obtain ⟨i, hi⟩ := List.mem_iff_getElem?.mp he
    have hafter := run_announced (.next htrigger (run_of_keeps hkeeps)) hlevel hannounced
    have hpending := pending_zero_of_quiet hafter.2 hquiet hlatch
    obtain ⟨htable, hahead⟩ := trigger_ahead htrigger hi
    have hlevel' := step_level htrigger hlevel
    rcases run_ahead hkeeps hlevel' htable hh hahead with hcalled | hahead
    · exact ⟨i, hcalled⟩
    · exact absurd hahead (not_ahead_of_quiet hquiet hpending i)

/-- One entry for id 3, called for one trigger. -/
def entry : Slot ℕ ℕ := SoftwareInterrupt.entry

def registered : State ℕ ℕ := { start ℕ 0 1 with table := [entry] }

def triggered : State ℕ ℕ :=
  { registered with pending := 8, armed := Function.update (fun _ => false) 0 true }

def served : List (Label ℕ ℕ) :=
  [.setLatch 0, .enter, .read, .clear, .attempt false, .attempt false, .visit 0 (some entry),
    .again, .attempt false, .ret]

def rested : State ℕ ℕ := { registered with armed := PmuInterrupt.disarmed }

theorem step_keeps {s t : State ℕ ℕ} {l : Label ℕ ℕ} (hs : PmuInterrupt.Step s l t)
    (hl : ∀ active, l ≠ .cause active) (htable : t.table = [entry]) : Keeps entry s l t :=
  ⟨⟨hs, hl⟩, by rw [htable]; exact List.mem_singleton_self _⟩

theorem served_keeps : Run (Keeps entry) triggered served rested := by
  refine .next (step_keeps (.setLatch rfl) (by simp) rfl) ?_
  refine .next (step_keeps (.enter rfl (.inl rfl)) (by simp) rfl) ?_
  refine .next (step_keeps (.read rfl) (by simp) rfl) ?_
  refine .next (step_keeps (.clear rfl) (by simp) rfl) ?_
  refine .next (step_keeps (.attempt false rfl) (by simp) rfl) ?_
  refine .next (step_keeps (.attempt false rfl) (by simp) rfl) ?_
  refine .next (step_keeps (@PmuInterrupt.Step.visit _ _ _ _ 8 0 entry rfl rfl) (by simp) rfl) ?_
  refine .next (step_keeps (.again rfl (Nat.le_refl 1)) (by simp) rfl) ?_
  refine .next (step_keeps (.attempt false rfl) (by simp) rfl) ?_
  exact .single (step_keeps (.ret rfl) (by simp) rfl)

theorem trigger_is_served : Quiet rested ∧ ∃ i, Label.visit i (some entry) ∈ served := by
  have hadd : Run IntmtxStep (start ℕ 0 1) [.add entry] registered :=
    .single ⟨.add entry rfl, by simp⟩
  have htrigger : IntmtxStep registered (.trigger 0 entry.intrId) triggered :=
    ⟨.trigger 3 rfl, by simp⟩
  have hquiet : Quiet rested := ⟨PmuInterrupt.disarmed_eq, rfl⟩
  exact ⟨hquiet, (intmtx_wrapper_serves_every_trigger 0 1 _ _ hadd).2.2 entry 0 _ _ _ (by decide)
    (by decide) htrigger served_keeps hquiet rfl⟩

end EspAmp.InterruptMatrix
