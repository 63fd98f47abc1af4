import EspAmp.RpmsgDrain
import EspAmp.SoftwareInterrupt

/-!
# RPMsg in interrupt mode

A call that puts a message into the queue owes the other core a software interrupt, and
raises it after the queue call. The other core takes its interrupts by the routine that
clears the latch first and asks no status. When that routine comes to the table entry of
the device, it polls until a poll does not return zero. Sending, triggering, taking batches
of interrupts and polling are all separate steps of the two cores, in any order; handlers
of other subsystems and their triggers are arbitrary.

No message is stranded: a core that is owed no interrupt, has none pending and is outside
its routine has polled everything, unless some poll met an unknown destination and gave up
early. The wrappers that the two cores really have do nothing that this system cannot do.
-/
namespace EspAmp.RpmsgInterrupt
open ByteMemory ReplyMachine RpmsgChannel RpmsgPair RpmsgDrain
open SoftwareInterrupt (Slot Isr Outside Routine Ahead step_slot step_ahead step_announced
  trigger_inv)

theorem rpmsgIntrId_lt : 29 < 32 := by decide

/-- `SW_INTR_RESERVED_ID_RPMSG`. -/
def rpmsgIntrId : Fin 32 := ⟨29, rpmsgIntrId_lt⟩

/-- Both devices behind `esp_amp_rpmsg_intr_enable`: the handler table of each core has the
entry of its device, with the receive callback. -/
structure Linked (H A : Type) where
  pair : Pair
  table : Side → List (Slot H A)
  entry : Side → Slot H A
  intrId : ∀ d, (entry d).intrId = rpmsgIntrId
  handler : ∀ d, (entry d).handler ≠ none
  registered : ∀ d, entry d ∈ table d

/-- `owed d` counts the messages of side `d` whose interrupt is still to be raised;
`draining d` tells that core `d` is inside `__esp_amp_rpmsg_rx_callback`. -/
structure State (H A : Type) where
  sys : Sys
  intr : Side → SoftwareInterrupt.State H A
  owed : Side → ℕ
  draining : Side → Bool

inductive Label (H A : Type) where
  | call (d : Side) (op : Op)
  | notify (d : Side) (c : ℕ)
  | intr (d : Side) (l : SoftwareInterrupt.Label H A)
  | rxCallback (d : Side) (i : ℕ)
  | poll (d : Side)

section Model
variable {H A : Type} [DecidableEq H] (v : Linked H A)

omit [DecidableEq H] in
/-- Nothing was sent yet. -/
def Linked.start (mem : Memory 32) : State H A where
  sys := v.pair.start mem
  intr d := ⟨0, false, fun _ => false, .idle, v.table d⟩
  owed _ := 0
  draining _ := false

/-- The number of messages a call has put into the queue. -/
def published (s s' : Sys) (d : Side) : ℕ := (s'.chan d).sent.length - (s.chan d).sent.length

/-- One step of one core. The entry of the device stays in the table: no function of the
component deletes it. -/
inductive Step : State H A → Label H A → State H A → Prop
  | call {s : State H A} {d : Side} {op : Op} : op ≠ .poll → s.sys.Legal v.pair d op →
      Step s (.call d op)
        { s with
          sys := s.sys.exec v.pair d op,
          owed := Function.update s.owed d
            (s.owed d + published s.sys (s.sys.exec v.pair d op) d) }
  | notify {s : State H A} {d : Side} {c : ℕ} {t : SoftwareInterrupt.State H A} :
      0 < s.owed d → SoftwareInterrupt.Step (s.intr d.other) (.trigger c rpmsgIntrId) t →
      Step s (.notify d c)
        { s with
          intr := Function.update s.intr d.other t,
          owed := Function.update s.owed d (s.owed d - 1) }
  | intr {s : State H A} {d : Side} {l : SoftwareInterrupt.Label H A}
      {t : SoftwareInterrupt.State H A} : (s.draining d = true → Outside l) →
      (∀ i, l ≠ .visit i (some (v.entry d))) → SoftwareInterrupt.Step (s.intr d) l t →
      v.entry d ∈ t.table → Step s (.intr d l) { s with intr := Function.update s.intr d t }
  | rxCallback {s : State H A} {d : Side} {i : ℕ} {t : SoftwareInterrupt.State H A} :
      s.draining d = false →
      SoftwareInterrupt.Step (s.intr d) (.visit i (some (v.entry d))) t →
      Step s (.rxCallback d i)
        { s with
          intr := Function.update s.intr d t,
          draining := Function.update s.draining d true }
  | poll {s : State H A} {d : Side} : s.draining d = true →
      Step s (.poll d)
        { s with
          sys := s.sys.exec v.pair d .poll,
          draining := Function.update s.draining d (decide (pollRet s.sys d = 0)) }

end Model

section Calls
variable {p : Pair} {s : Sys} {d e : Side} {op : Op}

/-- A call that is no poll takes no message, and adds only to the channel of its side. -/
structure Grows (s s' : Sys) (d e : Side) : Prop where
  polled : (s'.chan e).polled = (s.chan e).polled
  sent : (s.chan e).sent <+: (s'.chan e).sent
  other : e ≠ d → (s'.chan e).sent = (s.chan e).sent

theorem grows_of_senderOnly {c : Chan} (mem : Memory 32) (h : (s.chan d).SenderOnly c) :
    Grows s { s.setChan d c with mem := mem } d e := by
  by_cases he : e = d
  · subst he
    refine ⟨?_, ?_, fun hne => absurd rfl hne⟩
    · simpa [Sys.setChan] using h.polled
    · simpa [Sys.setChan] using h.sent
  · constructor <;> simp [Sys.setChan, he]

theorem grows_of_receiver {c : Chan} (mem : Memory 32)
    (hpolled : c.polled = (s.chan d.other).polled) (hsent : c.sent = (s.chan d.other).sent) :
    Grows s { s.setChan d.other c with mem := mem } d e := by
  by_cases he : e = d.other
  · subst he
    constructor <;> simp [Sys.setChan, hpolled, hsent]
  · constructor <;> simp [Sys.setChan, he]

theorem exec_grows (hop : op ≠ .poll) : Grows s (s.exec p d op) d e := by
  cases op with
  | createMessage nbytes flags => exact grows_of_senderOnly _ (Chan.createMessage_senderOnly ..)
  | store x b => exact grows_of_receiver _ rfl rfl
  | sendNocopy ept dst data len => exact grows_of_senderOnly _ (Chan.sendNocopy_senderOnly ..)
  | send ept dst data len => exact grows_of_senderOnly _ (Chan.send_senderOnly ..)
  | poll => exact absurd rfl hop
  | destroy msgData =>
      have hlater := destroy_later (s.chan d.other) msgData
      refine grows_of_receiver s.mem hlater.polled ?_
      simp only [Chan.destroy]
      split_ifs <;> rfl
  | createEndpoint eptAddr rxCb rxCbData ctx => exact grows_of_receiver s.mem rfl rfl
  | deleteEndpoint eptAddr => exact grows_of_receiver s.mem rfl rfl
  | rebindEndpoint eptAddr rxCb rxCbData => exact grows_of_receiver s.mem rfl rfl

/-- As long as nothing was added, as many messages are available. -/
theorem available_of_grows {s' : Sys} (hs : SysInv p s) (hs' : SysInv p s')
    (h : Grows s s' e d.other) (hsent : (s'.chan d.other).sent = (s.chan d.other).sent) :
    available p s' d = available p s d := by
  have hbefore := sent_eq (d := d) hs
  have hafter := sent_eq (d := d) hs'
  rw [hsent, h.polled, hbefore] at hafter
  exact (List.append_cancel_left hafter).symm

/-- What a poll does to the messages that are available. -/
theorem poll_available (hs : SysInv p s) :
    (available p s d = [] ∧ pollRet s d = -1 ∧ available p (s.exec p d .poll) d = [] ∧
      ((s.exec p d .poll).chan d.other).polled = (s.chan d.other).polled) ∨
    ∃ m, available p s d = m.msg :: available p (s.exec p d .poll) d ∧
      pollRet s d = (if m.ept.isSome then 0 else -1) ∧
      ((s.exec p d .poll).chan d.other).polled = (s.chan d.other).polled ++ [m] := by
  have hlog := sent_eq (d := d) (poll_sysInv (d := d) hs)
  rw [poll_keeps.2, sent_eq (d := d) hs] at hlog
  rcases poll_cases (d := d) hs with
    ⟨hempty, -, hret, hpolled⟩ | ⟨m, rest, hfull, -, -, hret, hpolled⟩
  · rw [hpolled] at hlog
    exact .inl ⟨hempty, hret, (List.append_cancel_left hlog).symm.trans hempty, hpolled⟩
  · refine .inr ⟨m, ?_, hret, hpolled⟩
    rw [hpolled, List.map_append, List.append_assoc] at hlog
    exact List.append_cancel_left hlog

end Calls

section Invariant
variable {H A : Type} [DecidableEq H] {v : Linked H A} {s s' : State H A} {d e : Side} {i : ℕ}
  {l : Label H A} {t : SoftwareInterrupt.State H A}

/-- What brings core `d` to its entry: the sender owes an interrupt, the callback runs, or
the bit of the entry is ahead. The last case is a poll that gave up early. -/
def Coming (v : Linked H A) (s : State H A) (d : Side) (i : ℕ) : Prop :=
  0 < s.owed d.other ∨ s.draining d = true ∨ Ahead (v.entry d) i (s.intr d) ∨
    ∃ m ∈ (s.sys.chan d.other).polled, m.ept = none

/-- Whatever is available is coming. -/
def Served (v : Linked H A) (s : State H A) (d : Side) : Prop :=
  ∃ i, (s.intr d).table[i]? = some (v.entry d) ∧
    (available v.pair s.sys d ≠ [] → Coming v s d i)

structure Inv (v : Linked H A) (s : State H A) : Prop where
  sys : SysInv v.pair s.sys
  announced : ∀ d, SoftwareInterrupt.Announced (s.intr d)
  running : ∀ d, s.draining d = true → ∃ u j, (s.intr d).isr = .dispatch u j
  served : ∀ d, Served v s d

omit [DecidableEq H] in
theorem start_inv (mem : Memory 32) : Inv v (v.start mem) where
  sys := start_sysInv v.pair mem
  announced _ hne := absurd rfl hne
  running d hd := by cases hd
  served d := by
    obtain ⟨i, hi⟩ := List.mem_iff_getElem?.mp (v.registered d)
    have hchan : (v.pair.start mem).chan d.other = { ring := (v.pair.link d.other).start } := rfl
    have hlog := sent_eq (d := d) (start_sysInv v.pair mem)
    rw [hchan, List.map_nil, List.nil_append] at hlog
    exact ⟨i, hi, fun hne => absurd hlog.symm hne⟩

theorem visit_next {called : Option (Slot H A)} {a : SoftwareInterrupt.State H A}
    (hs : SoftwareInterrupt.Step a (.visit i called) t) :
    ∃ u slot, a.isr = .dispatch u i ∧ a.table[i]? = some slot ∧
      called = SoftwareInterrupt.visitSlot u slot ∧ t = { a with isr := .dispatch u (i + 1) } := by
  generalize hl : SoftwareInterrupt.Label.visit i called = l at hs
  cases hs with
  | visit hisr hslot =>
      obtain ⟨rfl, rfl⟩ := SoftwareInterrupt.Label.visit.inj hl
      exact ⟨_, _, hisr, hslot, rfl, rfl⟩
  | @attempt u spurious hisr =>
      rcases SoftwareInterrupt.attempt_cases (H := H) (A := A) spurious a.pending u with
        ⟨hlab, -⟩ | ⟨-, -, hlab, -⟩ | ⟨-, -, hlab, -⟩ <;> cases hl.trans hlab
  | _ => cases hl

theorem outside_isr {k : SoftwareInterrupt.Label H A} {a : SoftwareInterrupt.State H A}
    (hs : SoftwareInterrupt.Step a k t) (hk : Outside k) : t.isr = a.isr := by
  cases hs with
  | trigger intrId harmed => rfl
  | setLatch harmed => rfl
  | @attempt u spurious hisr =>
      unfold SoftwareInterrupt.attemptLabel at hk
      split_ifs at hk
      all_goals exact hk.elim
  | _ => exact hk.elim

/-- Only the routine itself moves the bit of an entry into its batch. -/
theorem served_of_intr (h : Inv v s) (htable : v.entry d ∈ t.table)
    {k : SoftwareInterrupt.Label H A} (hk : ∀ i, k ≠ .visit i (some (v.entry d)))
    (hs : SoftwareInterrupt.Step (s.intr d) k t) :
    Served v { s with intr := Function.update s.intr d t } e := by
  by_cases he : e = d
  · subst he
    obtain ⟨i, hi, hcoming⟩ := h.served e
    refine ⟨i, ?_, fun hne => ?_⟩
    · simpa using step_slot hs hi (v.handler e) htable
    · rcases hcoming hne with howed | hdraining | hahead | hnone
      · exact .inl howed
      · exact .inr (.inl hdraining)
      · rcases step_ahead hs hi (v.handler e) hahead with hcall | hahead'
        · exact absurd hcall (hk i)
        · exact .inr (.inr (.inl (by simpa using hahead')))
      · exact .inr (.inr (.inr hnone))
  · obtain ⟨i, hi, hcoming⟩ := h.served e
    exact ⟨i, by simpa [he] using hi, fun hne => by simpa [Coming, he] using hcoming hne⟩

omit [DecidableEq H] in
theorem served_of_call {op : Op} (h : Inv v s) (hop : op ≠ .poll)
    (hlegal : s.sys.Legal v.pair d op) :
    Served v { s with
      sys := s.sys.exec v.pair d op,
      owed := Function.update s.owed d
        (s.owed d + published s.sys (s.sys.exec v.pair d op) d) } e := by
  have hgrows := exec_grows (p := v.pair) (s := s.sys) (d := d) (e := e.other) hop
  obtain ⟨i, hi, hcoming⟩ := h.served e
  refine ⟨i, hi, fun hne => ?_⟩
  by_cases hsent : ((s.sys.exec v.pair d op).chan e.other).sent = (s.sys.chan e.other).sent
  · have havailable := available_of_grows h.sys (h.sys.exec hlegal) hgrows hsent
    rcases hcoming (havailable ▸ hne) with howed | hdraining | hahead | ⟨m, hm, hnone⟩
    · left
      by_cases he : e.other = d
      · subst he
        simp only [Function.update_self]
        omega
      · simpa [he] using howed
    · exact .inr (.inl hdraining)
    · exact .inr (.inr (.inl hahead))
    · exact .inr (.inr (.inr ⟨m, hgrows.polled ▸ hm, hnone⟩))
  · have he : e.other = d := by
      by_contra he
      exact hsent (hgrows.other he)
    subst he
    have hlength : (s.sys.chan e.other).sent.length <
        ((s.sys.exec v.pair e.other op).chan e.other).sent.length := by
      refine Nat.lt_of_le_of_ne hgrows.sent.length_le fun heq => hsent ?_
      exact (hgrows.sent.eq_of_length heq).symm
    left
    simp only [Function.update_self, published]
    omega

theorem served_of_notify {c : ℕ} (h : Inv v s)
    (hs : SoftwareInterrupt.Step (s.intr d.other) (.trigger c rpmsgIntrId) t) :
    Served v { s with
      intr := Function.update s.intr d.other t,
      owed := Function.update s.owed d (s.owed d - 1) } e := by
  obtain ⟨hbit, htable⟩ := trigger_inv hs rfl
  by_cases he : e = d.other
  · subst he
    obtain ⟨i, hi, -⟩ := h.served d.other
    refine ⟨i, by simpa [htable] using hi, fun _ => .inr (.inr (.inl (.inl ?_)))⟩
    simpa [v.intrId] using hbit
  · have hother : e.other ≠ d := fun h => he (by rw [← h, Side.other_other])
    obtain ⟨i, hi, hcoming⟩ := h.served e
    refine ⟨i, by simpa [he] using hi, fun hne => ?_⟩
    simpa [Coming, he, hother] using hcoming hne

theorem served_of_rxCallback (h : Inv v s)
    (hs : SoftwareInterrupt.Step (s.intr d) (.visit i (some (v.entry d))) t) :
    Served v { s with
      intr := Function.update s.intr d t,
      draining := Function.update s.draining d true } e := by
  obtain ⟨u, slot, -, -, -, rfl⟩ := visit_next hs
  obtain ⟨j, hj, hcoming⟩ := h.served e
  by_cases he : e = d
  · subst he
    exact ⟨j, by simpa using hj, fun _ => .inr (.inl (by simp))⟩
  · exact ⟨j, by simpa [he] using hj, fun hne => by simpa [Coming, he] using hcoming hne⟩

omit [DecidableEq H] in
/-- A poll takes a message and goes on, finds an unknown destination, or finds nothing. -/
theorem served_of_poll (h : Inv v s) (hdraining : s.draining d = true) :
    Served v { s with
      sys := s.sys.exec v.pair d .poll,
      draining := Function.update s.draining d (decide (pollRet s.sys d = 0)) } e := by
  obtain ⟨i, hi, hcoming⟩ := h.served e
  refine ⟨i, hi, fun hne => ?_⟩
  by_cases he : e = d
  · subst he
    rcases poll_available (d := e) h.sys with ⟨-, -, hempty, -⟩ | ⟨m, -, hret, hpolled⟩
    · exact absurd hempty hne
    · cases hept : m.ept with
      | none => exact .inr (.inr (.inr ⟨m, by simp [hpolled], hept⟩))
      | some ept => exact .inr (.inl (by simp [hret, hept]))
  · have hother : e.other ≠ d.other := by
      intro h
      exact he (by rw [← Side.other_other e, h, Side.other_other])
    have hchan : (s.sys.exec v.pair d .poll).chan e.other = s.sys.chan e.other := by
      simp [Sys.exec, Sys.setChan, hother]
    have havailable :
        available v.pair (s.sys.exec v.pair d .poll) e = available v.pair s.sys e := by
      rw [available, hchan]
      rfl
    simpa [Coming, he, hchan] using hcoming (havailable ▸ hne)

omit [DecidableEq H] in
theorem announced_update {t : SoftwareInterrupt.State H A} (h : Inv v s)
    (ht : SoftwareInterrupt.Announced t) :
    ∀ e, SoftwareInterrupt.Announced (Function.update s.intr d t e) := by
  intro e
  by_cases he : e = d
  · subst he
    simpa using ht
  · simpa [he] using h.announced e

omit [DecidableEq H] in
theorem running_update {t : SoftwareInterrupt.State H A} (h : Inv v s)
    (ht : s.draining d = true → t.isr = (s.intr d).isr) :
    ∀ e, s.draining e = true → ∃ u j, (Function.update s.intr d t e).isr = .dispatch u j := by
  intro e hdraining
  obtain ⟨u, j, hisr⟩ := h.running e hdraining
  by_cases he : e = d
  · subst he
    exact ⟨u, j, by rw [Function.update_self, ht hdraining, hisr]⟩
  · exact ⟨u, j, by simpa [he] using hisr⟩

theorem step_inv (hs : Step v s l s') (h : Inv v s) : Inv v s' := by
  cases hs with
  | call hop hlegal =>
      exact ⟨h.sys.exec hlegal, h.announced, h.running, fun _ => served_of_call h hop hlegal⟩
  | notify howed ht =>
      refine ⟨h.sys, announced_update h (step_announced ht (h.announced _)), ?_,
        fun _ => served_of_notify h ht⟩
      exact running_update h fun _ => outside_isr ht trivial
  | intr houtside hk ht htable =>
      refine ⟨h.sys, announced_update h (step_announced ht (h.announced _)), ?_,
        fun _ => served_of_intr h htable hk ht⟩
      exact running_update h fun hdraining => outside_isr ht (houtside hdraining)
  | @rxCallback d i t hdraining ht =>
      refine ⟨h.sys, announced_update h (step_announced ht (h.announced _)), ?_,
        fun _ => served_of_rxCallback h ht⟩
      intro e he
      obtain ⟨u, slot, -, -, -, rfl⟩ := visit_next ht
      by_cases hed : e = d
      · subst hed
        exact ⟨u, i + 1, by simp⟩
      · obtain ⟨u', j, hisr⟩ := h.running e (by simpa [hed] using he)
        exact ⟨u', j, by simpa [hed] using hisr⟩
  | @poll d hdraining =>
      refine ⟨poll_sysInv h.sys, h.announced, fun e he => ?_,
        fun _ => served_of_poll h hdraining⟩
      by_cases hed : e = d
      · subst hed
        exact h.running e hdraining
      · exact h.running e (by simpa [hed] using he)

theorem run_inv {mem : Memory 32} {ls : List (Label H A)}
    (hrun : Run (Step v) (v.start mem) ls s) : Inv v s :=
  hrun.invariant (fun _ _ _ hs h => step_inv hs h) (start_inv mem)

omit [DecidableEq H] in
theorem not_coming (h : Inv v s) (howed : s.owed d.other = 0) (hpending : (s.intr d).pending = 0)
    (hidle : (s.intr d).isr = .idle) (hknown : ∀ m ∈ (s.sys.chan d.other).polled, m.ept ≠ none) :
    ¬ Coming v s d i := by
  rintro (hpositive | hdraining | (hbit | ⟨u, j, hisr, -⟩) | ⟨m, hm, hnone⟩)
  · omega
  · obtain ⟨u, j, hisr⟩ := h.running d hdraining
    cases hisr.symm.trans hidle
  · simp [hpending] at hbit
  · cases hisr.symm.trans hidle
  · exact hknown m hm hnone

omit [DecidableEq H] in
/-- With nothing under way, and without a poll that gave up, everything sent has been
polled. -/
theorem polled_eq_sent (h : Inv v s) (howed : s.owed d.other = 0)
    (hpending : (s.intr d).pending = 0) (hidle : (s.intr d).isr = .idle)
    (hknown : ∀ m ∈ (s.sys.chan d.other).polled, m.ept ≠ none) :
    (s.sys.chan d.other).polled.map Polled.msg = (s.sys.chan d.other).sent := by
  obtain ⟨i, -, hcoming⟩ := h.served d
  have hempty : available v.pair s.sys d = [] := by
    by_contra hne
    exact not_coming h howed hpending hidle hknown (hcoming hne)
  rw [sent_eq (d := d) h.sys, hempty, List.append_nil]

end Invariant

section Progress
variable {H A : Type} [DecidableEq H] {v : Linked H A} {s s' : State H A} {d e : Side}
  {l : Label H A} {ls : List (Label H A)} {a t : SoftwareInterrupt.State H A}
  {k : SoftwareInterrupt.Label H A}

/-- What core `d` does on its own to serve its interrupts. -/
def Serves (d : Side) : Label H A → Prop
  | .call _ _ | .notify _ _ => False
  | .intr e k => e = d ∧ Routine k
  | .rxCallback e _ | .poll e => e = d

/-- A step of the receiver that gets somewhere: an exchange attempt may fail spuriously and
leave everything as it was. -/
def ReceiverStep (v : Linked H A) (d : Side) (s : State H A) (l : Label H A) (s' : State H A) :
    Prop :=
  Step v s l s' ∧ Serves d l ∧ s' ≠ s

def latchWork (latch : Bool) : ℕ := if latch then 6 else 0

/-- How far the routine is from its return. -/
def rank (a : SoftwareInterrupt.State H A) : ℕ :=
  (if a.pending = 0 then 0 else 2 * a.table.length + 3) +
    match a.isr with
    | .idle => latchWork a.latch
    | .entered => 5
    | .exchange u => (if u = a.pending then 2 else 3) + latchWork a.latch
    | .dispatch _ j => 2 * (a.table.length - j) + 4 + latchWork a.latch
    | .leaving => 1 + latchWork a.latch

/-- A bound on the steps that core `d` can take on its own. -/
def work (v : Linked H A) (s : State H A) (d : Side) : ℕ :=
  rank (s.intr d) + (available v.pair s.sys d).length + if s.draining d then 1 else 0

omit [DecidableEq H] in
theorem attempt_rank {u : BitVec 32} (spurious : Bool) (hisr : a.isr = .exchange u)
    {x : AtomicWord.Exchange 32} (hx : x = AtomicWord.compareExchangeWeak spurious a.pending u 0)
    (hne : { a with pending := x.word, isr := SoftwareInterrupt.afterAttempt x } ≠ a) :
    rank { a with pending := x.word, isr := SoftwareInterrupt.afterAttempt x } < rank a := by
  rcases SoftwareInterrupt.attempt_cases (H := H) (A := A) spurious a.pending u with
    ⟨-, hword, hafter⟩ | ⟨hzero, hu, -, hword, hafter⟩ | ⟨hpending, hu, -, hword, hafter⟩
  all_goals rw [← hx] at hword hafter
  · have hne' : u ≠ a.pending := by
      rintro rfl
      exact hne (by simp only [hword, hafter, ← hisr])
    simp only [rank, hword, hafter, hisr, if_neg hne', if_true]
    omega
  · simp only [rank, hword, hafter, hisr, hzero, hu, if_true]
    omega
  · subst hpending
    simp only [rank, hword, hafter, hisr, if_neg hu, if_true]
    omega

theorem routine_rank (hs : SoftwareInterrupt.Step a k t) (hk : Routine k) (hne : t ≠ a) :
    rank t < rank a := by
  cases hs with
  | enter hisr hlatch => simp [rank, hisr, hlatch, latchWork]
  | clear hisr =>
      simp only [rank, hisr]
      split_ifs <;> simp [latchWork]
  | attempt spurious hisr => exact attempt_rank spurious hisr rfl hne
  | @visit u i slot hisr hslot =>
      have hi := (List.getElem?_eq_some_iff.mp hslot).1
      simp only [rank, hisr]
      omega
  | again hisr hlen =>
      simp only [rank, hisr]
      split_ifs <;> omega
  | ret hisr => simp [rank, hisr, latchWork]
  | _ => exact hk.elim

omit [DecidableEq H] in
theorem routine_attempt (x : AtomicWord.Exchange 32) :
    Routine (SoftwareInterrupt.attemptLabel x : SoftwareInterrupt.Label H A) := by
  unfold SoftwareInterrupt.attemptLabel
  split_ifs <;> trivial

/-- An attempt that does not fail spuriously takes the word or learns it. -/
theorem attempt_moves {word u : BitVec 32} : SoftwareInterrupt.afterAttempt
    (AtomicWord.compareExchangeWeak false word u 0) ≠ .exchange u := by
  by_cases hword : word = u
  · have hx : AtomicWord.compareExchangeWeak false word u 0 = ⟨true, 0, u⟩ :=
      if_pos ⟨hword, rfl⟩
    rw [hx, SoftwareInterrupt.afterAttempt, if_pos rfl]
    split_ifs <;> simp
  · have hx : AtomicWord.compareExchangeWeak false word u 0 = ⟨false, word, word⟩ :=
      if_neg fun h => hword h.1
    rw [hx]
    exact fun h => hword (Isr.exchange.inj h)

theorem routine_keeps (hs : SoftwareInterrupt.Step a k t) (hk : Routine k) :
    t.table = a.table ∧ t.armed = a.armed := by
  cases hs with
  | trigger intrId harmed => exact hk.elim
  | setLatch harmed => exact hk.elim
  | add slot hisr => exact hk.elim
  | delete intrId handler hisr => exact hk.elim
  | _ => exact ⟨rfl, rfl⟩

theorem visit_rank {i : ℕ} {called : Option (Slot H A)}
    (hs : SoftwareInterrupt.Step a (.visit i called) t) : rank t + 2 = rank a := by
  obtain ⟨u, slot, hisr, hslot, -, rfl⟩ := visit_next hs
  have hi := (List.getElem?_eq_some_iff.mp hslot).1
  simp only [rank, hisr]
  omega

omit [DecidableEq H] in
theorem work_update {t : SoftwareInterrupt.State H A} :
    work v { s with intr := Function.update s.intr d t } d =
      rank t + (available v.pair s.sys d).length + if s.draining d then 1 else 0 := by
  simp [work]

theorem step_work (hs : ReceiverStep v d s l s') (h : Inv v s) : work v s' d < work v s d := by
  obtain ⟨hs, hserves, hne⟩ := hs
  cases hs with
  | call hop hlegal => exact hserves.elim
  | notify howed ht => exact hserves.elim
  | @intr e k t houtside hk ht htable =>
      obtain ⟨rfl, hroutine⟩ := hserves
      have hmoved : t ≠ s.intr e := by
        rintro rfl
        exact hne (by rw [Function.update_eq_self])
      have hrank := routine_rank ht hroutine hmoved
      rw [work_update, work]
      omega
  | @rxCallback e i t hdraining ht =>
      obtain rfl : e = d := hserves
      have hrank := visit_rank ht
      simp only [work, Function.update_self, hdraining, if_true]
      omega
  | @poll e hdraining =>
      obtain rfl : e = d := hserves
      simp only [work, Function.update_self, hdraining, if_true]
      rcases poll_available (d := e) h.sys with ⟨hempty, hret, hempty', -⟩ | ⟨m, hfull, -⟩
      · simp [hempty, hempty', hret]
      · have hlength := congrArg List.length hfull
        rw [List.length_cons] at hlength
        split_ifs <;> omega

/-- The receiver neither touches what it is owed nor the messages that were sent. -/
theorem receiver_keeps (hs : ReceiverStep v d s l s') :
    s'.owed = s.owed ∧ (s'.intr d).armed = (s.intr d).armed ∧
      (s'.sys.chan d.other).sent = (s.sys.chan d.other).sent := by
  obtain ⟨hs, hserves, -⟩ := hs
  cases hs with
  | call hop hlegal => exact hserves.elim
  | notify howed ht => exact hserves.elim
  | intr houtside hk ht htable =>
      obtain ⟨rfl, hroutine⟩ := hserves
      exact ⟨rfl, by simpa using (routine_keeps ht hroutine).2, rfl⟩
  | rxCallback hdraining ht =>
      obtain rfl := hserves
      obtain ⟨u, slot, -, -, -, rfl⟩ := visit_next ht
      exact ⟨rfl, by simp, rfl⟩
  | poll hdraining =>
      obtain rfl := hserves
      exact ⟨rfl, rfl, (poll_keeps (p := v.pair)).2⟩

theorem receiverRun_work (hrun : Run (ReceiverStep v d) s ls s') (h : Inv v s) :
    Inv v s' ∧ ls.length + work v s' d ≤ work v s d := by
  induction hrun with
  | done s => exact ⟨h, by simp⟩
  | next hs _ ih =>
      have hwork := step_work hs h
      obtain ⟨h', hle⟩ := ih (step_inv hs.1 h)
      refine ⟨h', ?_⟩
      rw [List.length_cons]
      omega

theorem receiverRun_keeps (hrun : Run (ReceiverStep v d) s ls s') :
    s'.owed = s.owed ∧ (s'.intr d).armed = (s.intr d).armed ∧
      (s'.sys.chan d.other).sent = (s.sys.chan d.other).sent := by
  induction hrun with
  | done s => exact ⟨rfl, rfl, rfl⟩
  | next hs _ ih =>
      obtain ⟨howed, harmed, hsent⟩ := receiver_keeps hs
      obtain ⟨howed', harmed', hsent'⟩ := ih
      exact ⟨howed'.trans howed, harmed'.trans harmed, hsent'.trans hsent⟩

/-- Core `d` has nothing left to do. -/
def AtRest (v : Linked H A) (s : State H A) (d : Side) : Prop :=
  ∀ l s', ¬ ReceiverStep v d s l s'

theorem AtRest.intr_stuck (hrest : AtRest v s d) (hdraining : s.draining d = false)
    (htable : v.entry d ∈ (s.intr d).table) (hk : Routine k)
    (hs : SoftwareInterrupt.Step (s.intr d) k t) : t = s.intr d := by
  by_contra hne
  by_cases hentry : ∃ i, k = .visit i (some (v.entry d))
  · obtain ⟨i, rfl⟩ := hentry
    refine hrest (.rxCallback d i) _ ⟨.rxCallback hdraining hs, rfl, fun heq => ?_⟩
    have hflag := congrFun (congrArg State.draining heq) d
    simp [hdraining] at hflag
  · push Not at hentry
    refine hrest (.intr d k) _ ⟨.intr (by simp [hdraining]) hentry hs ?_, ⟨rfl, hk⟩, fun heq => ?_⟩
    · rw [(routine_keeps hs hk).1]
      exact htable
    · have hintr := congrFun (congrArg State.intr heq) d
      exact hne (by simpa using hintr)

theorem AtRest.not_draining (hrest : AtRest v s d) (h : Inv v s) : s.draining d = false := by
  by_contra hdraining
  rw [Bool.not_eq_false] at hdraining
  refine hrest (.poll d) _ ⟨.poll hdraining, rfl, fun heq => ?_⟩
  have hflag := congrFun (congrArg State.draining heq) d
  have hsys : s.sys.exec v.pair d .poll = s.sys := congrArg State.sys heq
  rcases poll_available (d := d) h.sys with ⟨-, hret, -⟩ | ⟨m, hfull, -⟩
  · simp [hret, hdraining] at hflag
  · rw [hsys] at hfull
    simpa using congrArg List.length hfull

/-- A core at rest is outside its routine, and its latch is clear. -/
theorem AtRest.quiet (hrest : AtRest v s d) (h : Inv v s) :
    (s.intr d).isr = .idle ∧ (s.intr d).latch = false := by
  obtain ⟨i, hi, -⟩ := h.served d
  have hmem := List.mem_of_getElem? hi
  have hdraining := hrest.not_draining h
  have hstuck {k t} (hs : SoftwareInterrupt.Step (s.intr d) k t) (hk : Routine k) :
      t.isr = (s.intr d).isr := by
    rw [hrest.intr_stuck hdraining hmem hk hs]
  cases hisr : (s.intr d).isr with
  | idle =>
      refine ⟨rfl, ?_⟩
      by_contra hlatch
      have hmoved := hstuck (.enter hisr (by simpa using hlatch)) trivial
      cases hmoved.trans hisr
  | entered => cases (hstuck (.clear hisr) trivial).trans hisr
  | exchange u =>
      have hmoved := hstuck (.attempt false hisr) (routine_attempt _)
      exact absurd (hmoved.trans hisr) attempt_moves
  | dispatch u j =>
      by_cases hj : j < (s.intr d).table.length
      · have hmoved := hstuck (.visit hisr (List.getElem?_eq_getElem hj)) trivial
        have hnext := Isr.dispatch.inj (hmoved.trans hisr)
        omega
      · cases (hstuck (.again hisr (by omega)) trivial).trans hisr
  | leaving => cases (hstuck (.ret hisr) trivial).trans hisr

/-- A core at rest that is owed no interrupt has polled everything. -/
theorem AtRest.polled_eq_sent (hrest : AtRest v s d) (h : Inv v s) (howed : s.owed d.other = 0)
    (harmed : ∀ c, (s.intr d).armed c = false)
    (hknown : ∀ m ∈ (s.sys.chan d.other).polled, m.ept ≠ none) :
    (s.sys.chan d.other).polled.map Polled.msg = (s.sys.chan d.other).sent := by
  obtain ⟨hidle, hlatch⟩ := hrest.quiet h
  refine RpmsgInterrupt.polled_eq_sent h howed (by_contra fun hne => ?_) hidle hknown
  rcases h.announced d hne with hset | ⟨c, hc⟩ | hrunning
  · exact absurd (hset.symm.trans hlatch) (by decide)
  · exact absurd (hc.symm.trans (harmed c)) (by decide)
  · rw [hidle] at hrunning
    cases hrunning

end Progress

end EspAmp.RpmsgInterrupt
