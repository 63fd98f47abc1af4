import EspAmp.ByteMemory
import EspAmp.ReplyMachine

/-!
# Critical sections without an operating system

On a subcore without an operating system a critical section clears the interrupt enable
bit. The sections nest by a counter, and the outermost one keeps the bit as it found it.
The counter and the kept word are shared by the main program and the interrupt handlers,
and are read and written one after the other. Every step below is one access. An interrupt
is taken before any step at which the bit is set, and its handler runs to its end before
the interrupted program goes on. The vector code is the one of the LP core, `vector.S`,
which counts the handlers in progress; the handlers of an HP subcore run under the vectors
of its SDK.

Two guards are rules of the interface, not checks of the code: a handler leaves as many
sections as it enters, and interrupts are switched on and off only by the main program and
only outside of sections. A call that leaves a section where none is open is allowed.
-/
namespace EspAmp.CriticalSection
open ByteMemory ReplyMachine

section Model

/-- The bits of `mstatus` that traps and critical sections use. -/
structure Mstatus where
  mie : Bool
  mpie : Bool
deriving Repr, DecidableEq

/-- The next access of a context. `out` is all code outside the two functions. -/
inductive Pc
  | vectorIn
  | out
  | cleared (old_mstatus : Mstatus)
  | counted (old_mstatus : Mstatus) (nesting : U32)
  | leaving
  | left
  | vectorOut
deriving Repr, DecidableEq

/-- The main program or a handler. The number of its open sections, and whether interrupts
were enabled before the first of them, are not in the program. -/
structure Context where
  pc : Pc
  sections : ℕ
  enabled : Bool
deriving Repr, DecidableEq

structure State where
  mstatus : Mstatus
  s_critical_nesting : U32
  s_old_mstatus : Mstatus
  _bm_intr_nesting_cnt : U32
  running : Context
  interrupted : List Context
deriving Repr, DecidableEq

inductive Label
  /-- `RV_CLEAR_CSR(mstatus, MSTATUS_MIE)` -/
  | enterClear
  /-- `s_critical_nesting++` -/
  | enterCount (old_mstatus : Mstatus)
  /-- `if (… == 0) s_old_mstatus = old_mstatus` -/
  | enterSave (old_mstatus : Mstatus) (nesting : U32)
  /-- `if (s_critical_nesting > 0)` -/
  | exitTest
  /-- `s_critical_nesting--` -/
  | exitCount
  /-- `if (s_critical_nesting == 0) RV_SET_CSR(mstatus, s_old_mstatus & MSTATUS_MIE)` -/
  | exitRestore
  /-- `esp_amp_arch_intr_enable` -/
  | intrEnable
  /-- `esp_amp_arch_intr_disable` -/
  | intrDisable
  | trap
  /-- `add_intr_nesting 1` -/
  | vectorEnter
  /-- `add_intr_nesting -1` -/
  | vectorExit
  | mret
deriving Repr, DecidableEq

/-- The guards. The main program switches interrupts only outside of sections, a handler
returns with as many sections left as entered, and no context opens `2 ^ 32` of them. -/
def State.Enabled (s : State) : Label → Prop
  | .enterClear => s.running.pc = .out
  | .enterCount old => s.running.pc = .cleared old ∧ s.running.sections + 1 < 2 ^ 32
  | .enterSave old nesting => s.running.pc = .counted old nesting
  | .exitTest => s.running.pc = .out
  | .exitCount => s.running.pc = .leaving
  | .exitRestore => s.running.pc = .left
  | .intrEnable | .intrDisable =>
      s.running.pc = .out ∧ s.running.sections = 0 ∧ s.interrupted = []
  | .trap => s.mstatus.mie = true
  | .vectorEnter => s.running.pc = .vectorIn
  | .vectorExit => s.running.pc = .out ∧ s.running.sections = 0 ∧ s.interrupted ≠ []
  | .mret => s.running.pc = .vectorOut

def State.next (s : State) : Label → State
  | .enterClear =>
      { s with
        mstatus := { s.mstatus with mie := false }
        running := { s.running with
          pc := .cleared s.mstatus
          enabled := if s.running.sections = 0 then s.mstatus.mie else s.running.enabled } }
  | .enterCount old =>
      { s with
        s_critical_nesting := s.s_critical_nesting + 1
        running := { s.running with
          pc := .counted old s.s_critical_nesting
          sections := s.running.sections + 1 } }
  | .enterSave old nesting =>
      { s with
        s_old_mstatus := if nesting = 0 then old else s.s_old_mstatus
        running := { s.running with pc := .out } }
  | .exitTest =>
      { s with running := { s.running with
          pc := if 0 < s.s_critical_nesting then .leaving else .out } }
  | .exitCount =>
      { s with
        s_critical_nesting := s.s_critical_nesting - 1
        running := { s.running with pc := .left, sections := s.running.sections - 1 } }
  | .exitRestore =>
      { s with
        mstatus := { s.mstatus with
          mie := if s.s_critical_nesting = 0 then s.mstatus.mie || s.s_old_mstatus.mie
            else s.mstatus.mie }
        running := { s.running with pc := .out } }
  | .intrEnable => { s with mstatus := { s.mstatus with mie := true } }
  | .intrDisable => { s with mstatus := { s.mstatus with mie := false } }
  | .trap =>
      { s with
        mstatus := { mie := false, mpie := s.mstatus.mie }
        running := ⟨.vectorIn, 0, false⟩
        interrupted := s.running :: s.interrupted }
  | .vectorEnter =>
      { s with
        _bm_intr_nesting_cnt := s._bm_intr_nesting_cnt + 1
        running := { s.running with pc := .out } }
  | .vectorExit =>
      { s with
        _bm_intr_nesting_cnt := s._bm_intr_nesting_cnt - 1
        running := { s.running with pc := .vectorOut } }
  | .mret =>
      { s with
        mstatus := { mie := s.mstatus.mpie, mpie := true }
        running := s.interrupted.headD s.running
        interrupted := s.interrupted.tail }

instance (s : State) (l : Label) : Decidable (s.Enabled l) := by
  unfold State.Enabled
  cases l <;> infer_instance

def Step (s : State) (l : Label) (t : State) : Prop := s.Enabled l ∧ t = s.next l

/-- The state at the start of the main program, with interrupts on or off. -/
def init (mstatus : Mstatus) : State :=
  ⟨mstatus, 0, ⟨false, false⟩, 0, ⟨.out, 0, false⟩, []⟩

/-- `esp_amp_env_in_isr`. The counter is declared as a single byte here. -/
def State.inIsr (s : State) : Bool := decide (0 < s._bm_intr_nesting_cnt.setWidth 8)

end Model

section Invariant
variable {s t : State} {l : Label}

/-- With the bit set, no section is open and no handler is in progress. With a section
open, the word it found is kept for it. -/
structure Inv (s : State) : Prop where
  count : s.s_critical_nesting.toNat = s.running.sections
  masked : s.mstatus.mie = true →
    s.running.pc = .out ∧ s.running.sections = 0 ∧ s.interrupted = []
  level : s.interrupted.length ≤ 1
  outside : ∀ c ∈ s.interrupted, c.pc = .out ∧ c.sections = 0
  returns : s.interrupted ≠ [] → s.mstatus.mpie = true ∧ s.running.enabled = false
  vector : s.running.pc = .vectorIn ∨ s.running.pc = .vectorOut →
    s.interrupted ≠ [] ∧ s.running.sections = 0
  handlers : s._bm_intr_nesting_cnt.toNat =
    if s.running.pc = .vectorIn ∨ s.running.pc = .vectorOut then 0 else s.interrupted.length
  cleared : ∀ old, s.running.pc = .cleared old → s.running.sections = 0 →
    old.mie = s.running.enabled
  counted : ∀ old nesting, s.running.pc = .counted old nesting →
    s.running.sections = nesting.toNat + 1 ∧ (nesting = 0 → old.mie = s.running.enabled)
  leaving : s.running.pc = .leaving → 0 < s.running.sections
  kept : 0 < s.running.sections ∨ s.running.pc = .left →
    (∀ old, s.running.pc ≠ .counted old 0) → s.s_old_mstatus.mie = s.running.enabled

theorem inv_init (m : Mstatus) : Inv (init m) := by
  constructor <;> simp [init]

theorem Inv.nesting_eq_zero_iff (h : Inv s) :
    s.s_critical_nesting = 0 ↔ s.running.sections = 0 := by
  rw [← h.count, ← BitVec.toNat_inj]
  rfl

theorem Inv.nesting_pos_iff (h : Inv s) : 0 < s.s_critical_nesting ↔ 0 < s.running.sections := by
  rw [← h.count, BitVec.lt_def]
  rfl

/-- Only the main program is ever interrupted. -/
theorem Inv.interrupted_eq (h : Inv s) (hne : s.interrupted ≠ []) :
    ∃ c, s.interrupted = [c] ∧ c.pc = .out ∧ c.sections = 0 := by
  obtain ⟨c, cs, hcs⟩ := List.exists_cons_of_ne_nil hne
  have hlevel := h.level
  rw [hcs, List.length_cons, Nat.succ_le_succ_iff, Nat.le_zero, List.length_eq_zero_iff] at hlevel
  rw [hlevel] at hcs
  exact ⟨c, hcs, h.outside c (by rw [hcs]; exact List.mem_singleton_self c)⟩

/-- Interrupts are off while a context enters or leaves a section, and in a handler. -/
theorem Inv.mie_eq_false (h : Inv s)
    (hbusy : s.running.pc ≠ .out ∨ s.running.sections ≠ 0 ∨ s.interrupted ≠ []) :
    s.mstatus.mie = false := by
  by_contra hmie
  obtain ⟨hpc, hsections, hmain⟩ := h.masked (Bool.not_eq_false _ ▸ hmie)
  rcases hbusy with hbusy | hbusy | hbusy
  · exact hbusy hpc
  · exact hbusy hsections
  · exact hbusy hmain

/-- Between sections and in their bodies, most of the invariant is about the counters. -/
theorem inv_of_out (hpc : t.running.pc = .out)
    (hcount : t.s_critical_nesting.toNat = t.running.sections)
    (hmasked : t.mstatus.mie = true → t.running.sections = 0 ∧ t.interrupted = [])
    (hlevel : t.interrupted.length ≤ 1)
    (houtside : ∀ c ∈ t.interrupted, c.pc = .out ∧ c.sections = 0)
    (hreturns : t.interrupted ≠ [] → t.mstatus.mpie = true ∧ t.running.enabled = false)
    (hhandlers : t._bm_intr_nesting_cnt.toNat = t.interrupted.length)
    (hkept : 0 < t.running.sections → t.s_old_mstatus.mie = t.running.enabled) : Inv t where
  count := hcount
  masked hmie := ⟨hpc, hmasked hmie⟩
  level := hlevel
  outside := houtside
  returns := hreturns
  vector hv := by simp [hpc] at hv
  handlers := by simpa [hpc] using hhandlers
  cleared old hc := by simp [hpc] at hc
  counted old nesting hc := by simp [hpc] at hc
  leaving hl := by simp [hpc] at hl
  kept hk _ := hkept (by simpa [hpc] using hk)

/-- The counter of the handlers, outside of the vector code. -/
theorem Inv.handlers_eq (h : Inv s) (hin : s.running.pc ≠ .vectorIn)
    (hout : s.running.pc ≠ .vectorOut) : s._bm_intr_nesting_cnt.toNat = s.interrupted.length := by
  rw [h.handlers, if_neg (not_or.mpr ⟨hin, hout⟩)]

theorem Inv.enterClear (h : Inv s) (hpc : s.running.pc = .out) : Inv (s.next .enterClear) where
  count := h.count
  masked hmie := by cases hmie
  level := h.level
  outside := h.outside
  returns hne := by
    refine ⟨(h.returns hne).1, ?_⟩
    change (if s.running.sections = 0 then s.mstatus.mie else s.running.enabled) = false
    split_ifs
    · exact h.mie_eq_false (.inr (.inr hne))
    · exact (h.returns hne).2
  vector hv := by simp [State.next] at hv
  handlers := by simpa [State.next] using h.handlers_eq (by simp [hpc]) (by simp [hpc])
  cleared old hc hzero := by
    cases hc
    exact (if_pos hzero).symm
  counted old nesting hc := by cases hc
  leaving hl := by cases hl
  kept hk _ := by
    have hopen : 0 < s.running.sections := by simpa [State.next] using hk
    exact (h.kept (.inl hopen) (by simp [hpc])).trans (if_neg hopen.ne').symm

theorem Inv.enterCount (h : Inv s) {old : Mstatus} (hpc : s.running.pc = .cleared old)
    (hlt : s.running.sections + 1 < 2 ^ 32) : Inv (s.next (.enterCount old)) where
  count := by
    change (s.s_critical_nesting + 1).toNat = _
    rw [BitVec.toNat_add, h.count]
    exact Nat.mod_eq_of_lt hlt
  masked hmie := by
    have hoff := h.mie_eq_false (.inl (by simp [hpc]))
    exact absurd (hmie.symm.trans hoff) (by decide)
  level := h.level
  outside := h.outside
  returns := h.returns
  vector hv := by simp [State.next] at hv
  handlers := by simpa [State.next] using h.handlers_eq (by simp [hpc]) (by simp [hpc])
  cleared old' hc := by cases hc
  counted old' nesting hc := by
    cases hc
    exact ⟨congrArg (· + 1) h.count.symm,
      fun hzero => h.cleared old hpc (h.nesting_eq_zero_iff.mp hzero)⟩
  leaving hl := by cases hl
  kept _ hne := by
    have hopen : s.s_critical_nesting ≠ 0 := fun hzero => hne old (congrArg (Pc.counted old) hzero)
    have hpos := Nat.pos_of_ne_zero (mt h.nesting_eq_zero_iff.mpr hopen)
    exact h.kept (.inl hpos) (by simp [hpc])

theorem Inv.enterSave (h : Inv s) {old : Mstatus} {nesting : U32}
    (hpc : s.running.pc = .counted old nesting) : Inv (s.next (.enterSave old nesting)) := by
  have hoff := h.mie_eq_false (.inl (by simp [hpc]))
  refine inv_of_out rfl h.count (fun hmie => absurd (hmie.symm.trans hoff) (by decide)) h.level
    h.outside h.returns (h.handlers_eq (by simp [hpc]) (by simp [hpc])) fun hopen => ?_
  change (if nesting = 0 then old else s.s_old_mstatus).mie = s.running.enabled
  split_ifs with hzero
  · exact (h.counted old nesting hpc).2 hzero
  · refine h.kept (.inl hopen) fun old' heq => hzero ?_
    rw [hpc] at heq
    cases heq
    rfl

theorem Inv.exitTest (h : Inv s) (hpc : s.running.pc = .out) : Inv (s.next .exitTest) := by
  have hhandlers := h.handlers_eq (by simp [hpc]) (by simp [hpc])
  have hkept : 0 < s.running.sections → s.s_old_mstatus.mie = s.running.enabled :=
    fun hopen => h.kept (.inl hopen) (by simp [hpc])
  by_cases hopen : 0 < s.s_critical_nesting
  · have hpos := h.nesting_pos_iff.mp hopen
    have hoff := h.mie_eq_false (.inr (.inl hpos.ne'))
    have hleaving : (s.next .exitTest).running.pc = .leaving := if_pos hopen
    exact {
      count := h.count
      masked := fun hmie => absurd (hmie.symm.trans hoff) (by decide)
      level := h.level
      outside := h.outside
      returns := h.returns
      vector := fun hv => by simp [hleaving] at hv
      handlers := hhandlers.trans (if_neg (by simp [hleaving])).symm
      cleared := fun old hc => by simp [hleaving] at hc
      counted := fun old nesting hc => by simp [hleaving] at hc
      leaving := fun _ => hpos
      kept := fun _ _ => hkept hpos }
  · have hout : (s.next .exitTest).running.pc = .out := if_neg hopen
    exact inv_of_out hout h.count (fun hmie => (h.masked hmie).2) h.level h.outside h.returns
      hhandlers hkept

theorem Inv.exitCount (h : Inv s) (hpc : s.running.pc = .leaving) :
    Inv (s.next .exitCount) where
  count := by
    have hopen : 1 ≤ s.s_critical_nesting := by
      rw [BitVec.le_def, h.count]
      exact h.leaving hpc
    change (s.s_critical_nesting - 1).toNat = _
    rw [BitVec.toNat_sub_of_le hopen, h.count]
    rfl
  masked hmie := by
    have hoff := h.mie_eq_false (.inl (by simp [hpc]))
    exact absurd (hmie.symm.trans hoff) (by decide)
  level := h.level
  outside := h.outside
  returns := h.returns
  vector hv := by simp [State.next] at hv
  handlers := by simpa [State.next] using h.handlers_eq (by simp [hpc]) (by simp [hpc])
  cleared old hc := by cases hc
  counted old nesting hc := by cases hc
  leaving hl := by cases hl
  kept _ _ := h.kept (.inl (h.leaving hpc)) (by simp [hpc])

theorem Inv.exitRestore (h : Inv s) (hpc : s.running.pc = .left) : Inv (s.next .exitRestore) := by
  have hoff := h.mie_eq_false (.inl (by simp [hpc]))
  have hkept := h.kept (.inr hpc) (by simp [hpc])
  refine inv_of_out rfl h.count (fun hmie => ?_) h.level h.outside h.returns
    (h.handlers_eq (by simp [hpc]) (by simp [hpc])) fun _ => hkept
  have hrestored : (if s.s_critical_nesting = 0 then s.mstatus.mie || s.s_old_mstatus.mie
      else s.mstatus.mie) = true := hmie
  split_ifs at hrestored with hzero
  · rw [hoff, Bool.false_or, hkept] at hrestored
    refine ⟨h.nesting_eq_zero_iff.mp hzero, ?_⟩
    by_contra hne
    exact absurd (hrestored.symm.trans (h.returns hne).2) (by decide)
  · exact absurd (hrestored.symm.trans hoff) (by decide)

/-- The main program switches interrupts. -/
theorem Inv.switch (h : Inv s) (hpc : s.running.pc = .out) (hsections : s.running.sections = 0)
    (hmain : s.interrupted = []) (mie : Bool) :
    Inv { s with mstatus := { s.mstatus with mie := mie } } :=
  inv_of_out hpc h.count (fun _ => ⟨hsections, hmain⟩) h.level h.outside
    (fun hne => (hne hmain).elim) (h.handlers_eq (by simp [hpc]) (by simp [hpc]))
    fun hopen => (hopen.ne' hsections).elim

theorem Inv.trap (h : Inv s) (hmie : s.mstatus.mie = true) : Inv (s.next .trap) := by
  obtain ⟨hpc, hsections, hmain⟩ := h.masked hmie
  exact {
    count := h.count.trans hsections
    masked := fun hset => by cases hset
    level := by simp [State.next, hmain]
    outside := by simpa [State.next, hmain] using ⟨hpc, hsections⟩
    returns := fun _ => ⟨hmie, rfl⟩
    vector := fun _ => ⟨List.cons_ne_nil _ _, rfl⟩
    handlers := by
      have hcount := h.handlers_eq (by simp [hpc]) (by simp [hpc])
      simpa [State.next, hmain] using hcount
    cleared := fun old hc => by cases hc
    counted := fun old nesting hc => by cases hc
    leaving := fun hl => by cases hl
    kept := fun hk => by simp [State.next] at hk }

theorem Inv.vectorEnter (h : Inv s) (hpc : s.running.pc = .vectorIn) :
    Inv (s.next .vectorEnter) := by
  obtain ⟨hne, hsections⟩ := h.vector (.inl hpc)
  obtain ⟨c, hc, -⟩ := h.interrupted_eq hne
  have hnone : s._bm_intr_nesting_cnt = 0 := by
    refine BitVec.eq_of_toNat_eq ?_
    rw [h.handlers, if_pos (.inl hpc)]
    rfl
  have hoff := h.mie_eq_false (.inr (.inr hne))
  refine inv_of_out rfl h.count (fun hmie => absurd (hmie.symm.trans hoff) (by decide)) h.level
    h.outside h.returns ?_ fun hopen => (hopen.ne' hsections).elim
  change (s._bm_intr_nesting_cnt + 1).toNat = s.interrupted.length
  rw [hnone, hc]
  rfl

theorem Inv.vectorExit (h : Inv s) (hpc : s.running.pc = .out) (hsections : s.running.sections = 0)
    (hne : s.interrupted ≠ []) : Inv (s.next .vectorExit) where
  count := h.count
  masked hmie := by
    have hoff := h.mie_eq_false (.inr (.inr hne))
    exact absurd (hmie.symm.trans hoff) (by decide)
  level := h.level
  outside := h.outside
  returns := h.returns
  vector _ := ⟨hne, hsections⟩
  handlers := by
    obtain ⟨c, hc, -⟩ := h.interrupted_eq hne
    have hone : s._bm_intr_nesting_cnt = 1 := by
      refine BitVec.eq_of_toNat_eq ?_
      rw [h.handlers_eq (by simp [hpc]) (by simp [hpc]), hc]
      rfl
    change (s._bm_intr_nesting_cnt - 1).toNat = _
    rw [hone]
    rfl
  cleared old hc := by cases hc
  counted old nesting hc := by cases hc
  leaving hl := by cases hl
  kept hk _ := by
    have hopen : 0 < s.running.sections := by simpa [State.next] using hk
    exact (hopen.ne' hsections).elim

theorem Inv.mret (h : Inv s) (hpc : s.running.pc = .vectorOut) : Inv (s.next .mret) := by
  obtain ⟨hne, hsections⟩ := h.vector (.inr hpc)
  obtain ⟨c, hc, hout, hclosed⟩ := h.interrupted_eq hne
  have hrunning : (s.next .mret).running = c := by simp [State.next, hc]
  have hmain : (s.next .mret).interrupted = [] := by simp [State.next, hc]
  refine inv_of_out (by rw [hrunning, hout]) ?_ (fun _ => ⟨by rw [hrunning, hclosed], hmain⟩)
    (by simp [hmain]) (by simp [hmain]) (fun hne' => (hne' hmain).elim) ?_ ?_
  · rw [hrunning, hclosed, ← hsections]
    exact h.count
  · rw [hmain]
    exact h.handlers.trans (if_pos (.inr hpc))
  · rw [hrunning, hclosed]
    exact fun hopen => (lt_irrefl _ hopen).elim

theorem step_inv (hs : Step s l t) (h : Inv s) : Inv t := by
  obtain ⟨hl, rfl⟩ := hs
  cases l with
  | enterClear => exact h.enterClear hl
  | enterCount old => exact h.enterCount hl.1 hl.2
  | enterSave old nesting => exact h.enterSave hl
  | exitTest => exact h.exitTest hl
  | exitCount => exact h.exitCount hl
  | exitRestore => exact h.exitRestore hl
  | intrEnable => exact h.switch hl.1 hl.2.1 hl.2.2 true
  | intrDisable => exact h.switch hl.1 hl.2.1 hl.2.2 false
  | trap => exact h.trap hl
  | vectorEnter => exact h.vectorEnter hl
  | vectorExit => exact h.vectorExit hl.1 hl.2.1 hl.2.2
  | mret => exact h.mret hl

theorem run_inv {ls : List Label} (hr : Run Step s ls t) (h : Inv s) : Inv t :=
  hr.invariant (fun _ _ _ hs hi => step_inv hs hi) h

/-- Whether interrupts are enabled once the main program is outside of its sections. -/
def State.restored (s : State) : Bool :=
  if s.interrupted ≠ [] then true
  else if s.running.pc = .out ∧ s.running.sections = 0 then s.mstatus.mie
  else s.running.enabled

/-- Only the switches of the main program change that. -/
theorem step_restored (hs : Step s l t) (h : Inv s) (hl : l ≠ .intrEnable ∧ l ≠ .intrDisable) :
    t.restored = s.restored := by
  unfold State.restored
  obtain ⟨hon, rfl⟩ := hs
  have hzero : s.s_critical_nesting = 0#32 ↔ s.running.sections = 0 := h.nesting_eq_zero_iff
  cases l with
  | intrEnable => exact (hl.1 rfl).elim
  | intrDisable => exact (hl.2 rfl).elim
  | enterClear =>
      have hpc : s.running.pc = .out := hon
      by_cases hsections : s.running.sections = 0 <;> simp [State.next, hpc, hsections]
  | enterCount old =>
      have hpc : s.running.pc = .cleared old := hon.1
      simp [State.next, hpc]
  | enterSave old nesting =>
      have hpc : s.running.pc = .counted old nesting := hon
      have hopen := (h.counted old nesting hpc).1
      simp [State.next, hpc, hopen]
  | exitTest =>
      have hpc : s.running.pc = .out := hon
      by_cases hsections : s.running.sections = 0 <;> simp [State.next, hpc, hzero, hsections]
  | exitCount =>
      have hpc : s.running.pc = .leaving := hon
      simp [State.next, hpc]
  | exitRestore =>
      have hpc : s.running.pc = .left := hon
      have hmie := h.mie_eq_false (.inl (by simp [hpc]))
      have hkept := h.kept (.inr hpc) (by simp [hpc])
      by_cases hsections : s.running.sections = 0 <;>
        simp [State.next, hpc, hzero, hsections, hmie, hkept]
  | trap =>
      have hmie : s.mstatus.mie = true := hon
      obtain ⟨hpc, hsections, hmain⟩ := h.masked hmie
      simp [State.next, hpc, hsections, hmain, hmie]
  | vectorEnter =>
      have hmain := (h.vector (.inl hon)).1
      simp [State.next, hmain]
  | vectorExit =>
      have hmain : s.interrupted ≠ [] := hon.2.2
      simp [State.next, hmain]
  | mret =>
      have hmain := (h.vector (.inr hon)).1
      obtain ⟨c, hc, hout, hclosed⟩ := h.interrupted_eq hmain
      have hmpie := (h.returns hmain).1
      simp [State.next, hc, hout, hclosed, hmpie]

theorem run_restored {ls : List Label} (hr : Run Step s ls t) (h : Inv s)
    (hls : ∀ l ∈ ls, l ≠ .intrEnable ∧ l ≠ .intrDisable) : t.restored = s.restored := by
  induction hr with
  | done s => rfl
  | next hs _ ih =>
      rw [ih (step_inv hs h) fun l hl => hls l (List.mem_cons_of_mem _ hl)]
      exact step_restored hs h (hls _ List.mem_cons_self)

end Invariant

section Results
variable {m : Mstatus} {s t : State} {ls ks : List Label}

/-- A section of the main program, then an interrupt with a section of its own. -/
def sectionThenTrap : List Label :=
  [.enterClear, .enterCount ⟨true, false⟩, .enterSave ⟨true, false⟩ 0, .exitTest, .exitCount,
    .exitRestore, .trap, .vectorEnter, .enterClear, .enterCount ⟨false, true⟩,
    .enterSave ⟨false, true⟩ 0, .exitTest, .exitCount, .exitRestore, .vectorExit, .mret]

def afterSection (n : ℕ) : State :=
  (sectionThenTrap.take n).foldl State.next (init ⟨true, false⟩)

theorem run_afterSection {n : ℕ}
    (h : Run.Allowed State.Enabled State.next (init ⟨true, false⟩) (sectionThenTrap.take n)) :
    Run Step (init ⟨true, false⟩) (sectionThenTrap.take n) (afterSection n) :=
  Run.of_allowed h

/-- An interrupt never meets an open section, neither of the program that runs nor of one
that was interrupted, and handlers know that they are handlers. -/
theorem sections_exclude_interrupts (h : Run Step (init m) ls s) :
    (s.mstatus.mie = true → ∀ c ∈ s.running :: s.interrupted, c.pc = .out ∧ c.sections = 0) ∧
    (∀ c ∈ s.interrupted, c.pc = .out ∧ c.sections = 0) ∧
    (s.interrupted ≠ [] → s.mstatus.mie = false) ∧
    (s.running.pc ≠ .vectorIn → s.running.pc ≠ .vectorOut →
      (s.inIsr = true ↔ s.interrupted ≠ [])) := by
  have hinv := run_inv h (inv_init m)
  refine ⟨fun hmie => ?_, hinv.outside, fun hne => ?_, fun hin hout => ?_⟩
  · obtain ⟨hpc, hsections, hmain⟩ := hinv.masked hmie
    rw [hmain]
    simpa using ⟨hpc, hsections⟩
  · exact hinv.mie_eq_false (.inr (.inr hne))
  · have hcount := hinv.handlers
    rw [if_neg (not_or.mpr ⟨hin, hout⟩)] at hcount
    have hlevel := hinv.level
    rw [State.inIsr, decide_eq_true_eq, BitVec.lt_def, BitVec.toNat_setWidth, hcount,
      Nat.mod_eq_of_lt (by omega), ne_eq, ← List.length_eq_zero_iff]
    exact Nat.pos_iff_ne_zero

/-- In the section of the handler. -/
theorem handler_section_is_masked :
    (afterSection 11).mstatus.mie = false ∧ (afterSection 11).inIsr = true := by
  have hrun := run_afterSection (n := 11) (by decide +kernel)
  obtain ⟨-, -, hmasked, hisr⟩ := sections_exclude_interrupts hrun
  have hhandler : (afterSection 11).interrupted ≠ [] := by decide +kernel
  exact ⟨hmasked hhandler, (hisr (by decide +kernel) (by decide +kernel)).mpr hhandler⟩

/-- Outside of its sections the main program finds interrupts as it left them, whatever
sections it and the handlers entered and left in between. -/
theorem sections_restore_interrupts (h : Run Step (init m) ls s) (h' : Run Step s ks t)
    (hks : .intrEnable ∉ ks ∧ .intrDisable ∉ ks)
    (hs : s.running.pc = .out ∧ s.running.sections = 0 ∧ s.interrupted = [])
    (ht : t.running.pc = .out ∧ t.running.sections = 0 ∧ t.interrupted = []) :
    t.mstatus.mie = s.mstatus.mie := by
  have hrestored := run_restored h' (run_inv h (inv_init m)) fun l hl =>
    ⟨fun he => hks.1 (he ▸ hl), fun he => hks.2 (he ▸ hl)⟩
  simpa [State.restored, hs, ht] using hrestored

/-- After both sections interrupts are enabled as at the start. -/
theorem section_then_trap_restores : (afterSection 16).mstatus.mie = true :=
  sections_restore_interrupts (.done _) (run_afterSection (n := 16) (by decide +kernel))
    (by decide) (by decide) (by decide +kernel)

end Results
end EspAmp.CriticalSection
