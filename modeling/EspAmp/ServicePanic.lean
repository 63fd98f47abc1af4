import EspAmp.ServiceConsole

/-!
# A subcore panic on the console

The interrupt handler of a panic sets a flag and notifies the supplicant, which looks at the
flag in front of every request. Until the delay behind the report ends, at most one more
line is printed after the flag is set, the report is printed once, and nothing follows it. A
stopped subcore triggers no more, so a panic whose latch the wrapper drops stays unreported.
-/
namespace EspAmp.ServiceQueue
open ByteMemory Virtqueue VirtqueueFifo VirtqueueOwnership Printf ReplyMachine
open InterruptPort (SubcoreType)

section Panic
variable {v : Service} {subcoreType : SubcoreType} {mem : Memory 32} {s s' : State} {l : Label}
  {ls ks : List Label}

/-- The characters on the console, and behind them the report once it is printed. -/
def Reported (s : State) : Prop :=
  ∃ cs : List U8, s.output = cs.map .char ++ if s.task = .asleep then [.report] else []

theorem Reported.awake (h : Reported s) (htask : s.task ≠ .asleep) :
    ∃ cs : List U8, s.output = cs.map .char := by
  obtain ⟨cs, hout⟩ := h
  exact ⟨cs, by rw [hout, if_neg htask, List.append_nil]⟩

theorem reported_of_awake {cs : List U8} (hout : s.output = cs.map .char)
    (htask : s.task ≠ .asleep) : Reported s :=
  ⟨cs, by rw [if_neg htask, List.append_nil, hout]⟩

theorem step_reported (hs : Step s l s') (helapse : l ≠ .elapse) (h : Reported s) :
    Reported s' := by
  by_cases hmain : l.onMain = true
  · obtain ⟨hl, rfl⟩ := hs
    cases l with
    | dropLatch => exact h
    | interrupt => exact h
    | panicInterrupt => exact h
    | wake =>
        obtain ⟨cs, hout⟩ := h.awake (by simp [hl.1])
        exact reported_of_awake hout (by simp [State.next])
    | check =>
        have hl' : s.task = .checking := hl
        obtain ⟨cs, hout⟩ := h.awake (by simp [hl'])
        refine reported_of_awake hout ?_
        simp only [State.next]
        split_ifs <;> simp
    | receive =>
        have hl' : s.task = .receiving := hl
        obtain ⟨cs, hout⟩ := h.awake (by simp [hl'])
        simp only [State.next, State.receive]
        split_ifs <;> exact reported_of_awake hout (by simp)
    | print param i =>
        have hl' : s.task = .printing param i := hl
        obtain ⟨cs, hout⟩ := h.awake (by simp [hl'])
        simp only [State.next, State.print]
        have hchar (c : U8) :
            s.output ++ [Out.char c] = (cs ++ [c]).map Out.char := by simp [hout]
        split_ifs
        · exact reported_of_awake (hchar (chr '\n')) (by simp)
        · exact reported_of_awake (hchar _) (by simp)
    | destroy param =>
        have hl' : s.task = .destroying param := hl
        obtain ⟨cs, hout⟩ := h.awake (by simp [hl'])
        exact reported_of_awake hout (by simp [State.next, State.destroy])
    | report =>
        have hl' : s.task = .reporting := hl
        obtain ⟨cs, hout⟩ := h.awake (by simp [hl'])
        exact ⟨cs, by simp [State.next, hout]⟩
    | elapse => exact (helapse rfl).elim
    | _ => cases hmain
  · have hsame := subcore_sameMain (by simpa using hmain) hs
    rw [Reported, hsame.output, hsame.task]
    exact h

/-- A known panic reaches the supplicant. -/
def PanicSeen (s : State) : Prop :=
  s.isSubcorePanic = true →
    s.notified = true ∨ s.task = .checking ∨ s.task = .reporting ∨ s.task = .asleep

theorem step_panicSeen (hs : Step s l s') (helapse : l ≠ .elapse) (h : PanicSeen s) :
    PanicSeen s' := by
  by_cases hmain : l.onMain = true
  · obtain ⟨hl, rfl⟩ := hs
    cases l with
    | dropLatch => exact h
    | interrupt => exact fun _ => .inl rfl
    | panicInterrupt => exact fun _ => .inl rfl
    | wake => exact fun _ => .inr (.inl rfl)
    | check =>
        intro hpanic
        have hpanic' : s.isSubcorePanic = true := hpanic
        exact .inr (.inr (.inl (if_pos hpanic')))
    | receive =>
        have hl' : s.task = .receiving := hl
        intro hpanic
        simp only [State.next, State.receive] at hpanic ⊢
        split_ifs at hpanic ⊢ <;> simpa [hl'] using h hpanic
    | print param i =>
        have hl' : s.task = .printing param i := hl
        intro hpanic
        simp only [State.next, State.print] at hpanic ⊢
        split_ifs at hpanic ⊢ <;> simpa [hl'] using h hpanic
    | destroy param => exact fun _ => .inr (.inl rfl)
    | report => exact fun _ => .inr (.inr (.inr rfl))
    | elapse => exact (helapse rfl).elim
    | _ => cases hmain
  · have hsame := subcore_sameMain (by simpa using hmain) hs
    rw [PanicSeen, hsame.panic, hsame.notified, hsame.task]
    exact h

/-- The requests that are received and the one that may be received without a check. -/
def State.unchecked (s : State) : ℕ :=
  s.received.length + if s.task = .receiving then 1 else 0

theorem unchecked_le (s : State) :
    s.received.length ≤ s.unchecked ∧ s.unchecked ≤ s.received.length + 1 := by
  unfold State.unchecked
  split_ifs <;> omega

/-- Behind a known panic no request is received after a check. -/
theorem step_unchecked (hs : Step s l s') (helapse : l ≠ .elapse)
    (hpanic : s.isSubcorePanic = true) :
    s'.isSubcorePanic = true ∧ s'.unchecked ≤ s.unchecked := by
  by_cases hmain : l.onMain = true
  · obtain ⟨hl, rfl⟩ := hs
    cases l with
    | dropLatch => exact ⟨hpanic, le_rfl⟩
    | interrupt => exact ⟨hpanic, le_rfl⟩
    | panicInterrupt => exact ⟨rfl, le_rfl⟩
    | wake => exact ⟨hpanic, by simp [State.unchecked, State.next]⟩
    | check => exact ⟨hpanic, by simp [State.unchecked, State.next, hpanic]⟩
    | receive =>
        have hl' : s.task = .receiving := hl
        simp only [State.unchecked, State.next, State.receive, hl']
        split_ifs <;> simp_all
    | print param i =>
        have hl' : s.task = .printing param i := hl
        simp only [State.unchecked, State.next, State.print, hl']
        split_ifs <;> simp_all
    | destroy param => exact ⟨hpanic, by simp [State.unchecked, State.next, State.destroy]⟩
    | report => exact ⟨hpanic, by simp [State.unchecked, State.next]⟩
    | elapse => exact (helapse rfl).elim
    | _ => cases hmain
  · have hsame := subcore_sameMain (by simpa using hmain) hs
    rw [State.unchecked, State.unchecked, hsame.panic, hsame.received, hsame.task]
    exact ⟨hpanic, le_rfl⟩

theorem run_unchecked (hrun : Run Step s ls s') (helapse : Label.elapse ∉ ls)
    (hpanic : s.isSubcorePanic = true) :
    s'.isSubcorePanic = true ∧ s'.unchecked ≤ s.unchecked := by
  induction hrun with
  | done s => exact ⟨hpanic, le_rfl⟩
  | next hs _ ih =>
      rw [List.mem_cons, not_or] at helapse
      obtain ⟨hpanic', hle⟩ := step_unchecked hs (Ne.symm helapse.1) hpanic
      obtain ⟨hlast, hle'⟩ := ih helapse.2 hpanic'
      exact ⟨hlast, hle'.trans hle⟩

/-- Without the end of a delay a run keeps what every other step keeps. -/
theorem run_without_elapse {P : State → Prop}
    (hstep : ∀ s l s', Step s l s' → l ≠ .elapse → P s → P s') (hrun : Run Step s ls s')
    (helapse : Label.elapse ∉ ls) (h : P s) : P s' := by
  induction hrun with
  | done s => exact h
  | next hs _ ih =>
      rw [List.mem_cons, not_or] at helapse
      exact ih helapse.2 (hstep _ _ _ hs (Ne.symm helapse.1) h)

/-- The interrupt of a panic is under way or its handler has run. -/
def PanicRaised (s : State) : Prop := s.panicIntr = true ∨ s.isSubcorePanic = true

theorem mainStep_panicRaised (hs : MainStep s l s') (h : PanicRaised s) : PanicRaised s' := by
  obtain ⟨⟨hl, rfl⟩, hmain, helapse⟩ := hs
  cases l with
  | panicInterrupt => exact .inr rfl
  | receive =>
      simp only [State.next, State.receive]
      split_ifs <;> exact h
  | print param i =>
      simp only [State.next, State.print]
      split_ifs <;> exact h
  | dropLatch => exact h
  | interrupt => exact h
  | wake => exact h
  | check => exact h
  | destroy param => exact h
  | report => exact h
  | elapse => exact (helapse rfl).elim
  | _ => cases hmain

/-- Until the delay behind a report ends: the report is printed at most once and last; after
the flag is set at most one more request is received; and the main core comes to rest
behind a panic only with the report printed, unless the latch of the panic has been dropped
by then. -/
theorem panic_reported_once (hrun : Run Step (start v subcoreType mem) ls s)
    (helapse : Label.elapse ∉ ls) :
    (∃ cs : List U8, s.output = cs.map .char ∨ s.output = cs.map .char ++ [.report]) ∧
      (∀ ks s', Run Step s ks s' → Label.elapse ∉ ks → s.isSubcorePanic = true →
        s'.received.length ≤ s.received.length + 1) ∧
      ∀ ks s', Run MainStep s ks s' → PanicRaised s → ks.length ≤ s.work ∧
        (AtRest s' → subcoreType = .hpCore ∨ s'.latchDropped = false →
          ∃ cs : List U8, s'.output = cs.map .char ++ [.report]) := by
  have hreported : Reported s := run_without_elapse (fun _ _ _ => step_reported) hrun helapse
    ⟨[], rfl⟩
  have hseen : PanicSeen s := run_without_elapse (fun _ _ _ => step_panicSeen) hrun helapse
    (by simp [PanicSeen, start])
  refine ⟨?_, ?_, ?_⟩
  · obtain ⟨cs, hout⟩ := hreported
    refine ⟨cs, ?_⟩
    split_ifs at hout
    · exact .inr hout
    · exact .inl (by rw [hout, List.append_nil])
  · intro ks s' hrun' helapse' hpanic
    have hle := (run_unchecked hrun' helapse' hpanic).2
    have hbefore := unchecked_le s
    have hafter := unchecked_le s'
    omega
  · intro ks s' hmain hraised
    obtain ⟨t, h⟩ := run_inv hrun
    have hlen := (mainRun_work h hmain).2
    refine ⟨by omega, fun hrest hlatch => ?_⟩
    obtain ⟨⟨cs, hout⟩, hseen', hraised'⟩ :=
      hmain.invariant (P := fun s => Reported s ∧ PanicSeen s ∧ PanicRaised s)
        (fun _ _ _ hs h => ⟨step_reported hs.1 hs.2.2 h.1, step_panicSeen hs.1 hs.2.2 h.2.1,
          mainStep_panicRaised hs h.2.2⟩) ⟨hreported, hseen, hraised⟩
    obtain ⟨-, hintr, htask⟩ := hrest.flags (run_latched hrun hmain hlatch)
    have hpanic : s'.isSubcorePanic = true := by
      rcases hraised' with h | h
      · exact absurd h (by simp [hintr])
      · exact h
    rcases htask with ⟨htask, hnotified⟩ | htask
    · have hsee := hseen' hpanic
      simp [htask, hnotified] at hsee
    · exact ⟨cs, by rw [hout, if_pos htask]⟩

end Panic

/-- The subcore panics with a line under way. -/
def panicking : List Label := sending ++ [.crash, .panic]

/-- The handler runs when the supplicant is in front of the request. -/
def reporting : List Label :=
  [.interrupt, .wake, .check, .panicInterrupt, .receive, .print 0x4087a094 0, .print 0x4087a094 1,
    .print 0x4087a094 2, .destroy 0x4087a094, .check, .report]

def raisedState : State := panicking.foldl State.next consoleStart

def reportedState : State := reporting.foldl State.next raisedState

theorem panicking_run : Run Step consoleStart panicking raisedState := by
  have h : Run.Allowed State.Enabled State.next consoleStart panicking := by decide +kernel
  exact Run.of_allowed h

theorem reporting_run : Run Step raisedState reporting reportedState := by
  have h : Run.Allowed State.Enabled State.next raisedState reporting := by decide +kernel
  exact Run.of_allowed h

theorem panic_is_reported : reportedState.output = (ascii "ok\n").map .char ++ [.report] ∧
    (∃ cs : List U8, raisedState.output = cs.map .char ∨
      raisedState.output = cs.map .char ++ [.report]) ∧
    reporting.length ≤ raisedState.work := by
  have hmain : Run MainStep raisedState reporting reportedState :=
    mainRun_of_run reporting_run (by decide)
  obtain ⟨hout, -, hrest⟩ := panic_reported_once panicking_run (by decide)
  exact ⟨by decide +kernel, hout, (hrest _ _ hmain (.inl (by decide +kernel))).1⟩

end EspAmp.ServiceQueue
