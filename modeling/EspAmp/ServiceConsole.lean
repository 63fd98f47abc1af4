import EspAmp.ServiceBuffers

/-!
# The console over the service queue

What the main core prints is a prefix of the lines that the subcore sent, whatever the
order of the steps. The measure of the work of the main core bounds every run of its steps,
so the console is complete as soon as the main core comes to rest, unless the wrapper beside
an LP subcore dropped the latch of its wake-up and no other trigger has followed.
-/
namespace EspAmp.ServiceQueue
open ByteMemory Virtqueue VirtqueueFifo VirtqueueOwnership RpmsgChannel Printf ReplyMachine
open ConsoleLines (Packet Console Cut IsCut Tracks cut maxLen dropLineFeed cut_isCut)
open InterruptPort (SubcoreType)

section Order
variable {s s' : State} {l : Label} {ls : List Label} {w : List U8}

/-- The character that the subcore has in hand. -/
def Subcore.inHand : Subcore → List U8
  | .retrying c | .storing c => [c]
  | _ => []

/-- Where the characters of the subcore have gone. -/
structure Ledger where
  accepted : List U8
  dropped : List U8
  uart : List U8
  inHand : List U8

def State.ledger (s : State) : Ledger := ⟨s.accepted, s.dropped, s.uart, s.subcore.inHand⟩

theorem createRequest_ledger (s : State) (c : U8) :
    (s.createRequest c).ledger = ⟨s.accepted, s.dropped, s.uart, [c]⟩ := by
  by_cases hret : (s.ring.reply (.alloc itemSize)).ret = espOk
  · rw [State.createRequest, if_neg (not_not.mpr hret)]
    rfl
  · rw [State.createRequest, if_pos hret]
    rfl

theorem sendRequest_ledger (s : State) (id : U16) (param : U32) (paramLen : U16)
    (hsubcore : s.subcore = .idle) : (s.sendRequest id param paramLen).ledger = s.ledger := by
  by_cases hret : (s.ring.reply (.send (param - 4#32) itemSize)).ret = espOk
  · rw [State.sendRequest, if_neg (not_not.mpr hret), State.ledger, State.ledger, hsubcore]
    rfl
  · rw [State.sendRequest, if_pos hret]
    rfl

theorem store_ledger (s : State) (c : U8) :
    (s.store c).ledger = ⟨s.accepted ++ [c], s.dropped, s.uart, []⟩ := by
  by_cases h : s.Ends c
  · unfold State.Ends at h
    simp only [State.store, if_pos h]
    exact sendRequest_ledger _ _ _ _ rfl
  · rw [store_extended h]
    rfl

/-- The main core has no hand in the characters of the subcore. -/
theorem main_ledger (hmain : l.onMain = true) (hs : Step s l s') :
    s'.ledger = s.ledger ∧ s'.subcore = s.subcore ∧ written [l] = [] := by
  obtain ⟨-, rfl⟩ := hs
  cases l with
  | receive =>
      simp only [State.next, State.receive]
      split_ifs <;> exact ⟨rfl, rfl, rfl⟩
  | print param i =>
      simp only [State.next, State.print]
      split_ifs <;> exact ⟨rfl, rfl, rfl⟩
  | init => cases hmain
  | put c => cases hmain
  | retry c => cases hmain
  | giveUp c => cases hmain
  | store c => cases hmain
  | trigger => cases hmain
  | crash => cases hmain
  | panic => cases hmain
  | otherTrigger => cases hmain
  | _ => exact ⟨rfl, rfl, rfl⟩

/-- The characters in the buffers and in hand come in the order they were written. -/
def Ordered (w : List U8) (g : Ledger) : Prop := (g.accepted ++ g.inHand).Sublist w

/-- Every character that was written is in one place. -/
def Counted (w : List U8) (g : Ledger) : Prop :=
  (g.accepted ++ g.dropped ++ g.uart ++ g.inHand).Perm (w.filter (· ≠ 0))

theorem Ordered.grow (h : Ordered w s.ledger) (w' : List U8) : Ordered (w ++ w') s.ledger :=
  List.Sublist.trans h (List.sublist_append_left w w')

theorem putChar_ordered (h : Ordered w s.ledger) (hidle : s.subcore = .idle) (c : U8) :
    Ordered (w ++ [c]) (s.putChar c).ledger := by
  have hhand : s.ledger.inHand = [] := congrArg Subcore.inHand hidle
  rw [Ordered, hhand, List.append_nil] at h
  have hnext : Ordered (w ++ [c]) ⟨s.accepted, s.dropped, s.uart, [c]⟩ :=
    h.append (List.Sublist.refl [c])
  have hskip : (s.accepted ++ s.subcore.inHand).Sublist (w ++ [c]) := by
    rw [hidle]
    exact (List.append_nil _).symm ▸ h.trans (List.sublist_append_left w [c])
  unfold State.putChar
  split_ifs
  · exact hskip
  · exact hnext
  · exact hskip
  · rw [createRequest_ledger]
    exact hnext

theorem step_ordered (h : Ordered w s.ledger) (hs : Step s l s') :
    Ordered (w ++ written [l]) s'.ledger := by
  by_cases hmain : l.onMain = true
  · obtain ⟨hledger, -⟩ := main_ledger hmain hs
    rw [hledger]
    exact h.grow _
  obtain ⟨hl, rfl⟩ := hs
  have hshort : Ordered (w ++ written [l]) ⟨s.accepted, s.dropped, s.uart, []⟩ := by
    rw [Ordered, List.append_nil]
    exact ((List.sublist_append_left _ _).trans h).trans (List.sublist_append_left _ _)
  cases l with
  | put c => exact putChar_ordered h hl c
  | retry c =>
      have hl' : s.subcore = .retrying c := hl
      have h' := h.grow (written [.retry c])
      rw [State.ledger, hl'] at h'
      rw [State.next, createRequest_ledger]
      exact h'
  | store c =>
      have hl' : s.subcore = .storing c := hl
      have h' := h.grow (written [.store c])
      rw [State.ledger, hl'] at h'
      rw [State.next, store_ledger, Ordered, List.append_nil]
      exact h'
  | init => exact h.grow _
  | otherTrigger => exact h.grow _
  | giveUp c => exact hshort
  | trigger => exact hshort
  | crash => exact hshort
  | panic => exact hshort
  | _ => exact absurd rfl hmain

theorem run_ordered (hrun : Run Step s ls s') (h : Ordered w s.ledger) :
    Ordered (w ++ written ls) s'.ledger := by
  induction hrun generalizing w with
  | done s => exact h.grow _
  | next hs _ ih =>
      have hrest := ih (step_ordered h hs)
      rw [List.append_assoc, written, written, ← List.filterMap_append] at hrest
      exact hrest

theorem counted_iff (g : Ledger) : Counted w g ↔ ∀ a, g.accepted.count a + g.dropped.count a +
    g.uart.count a + g.inHand.count a = (w.filter (· ≠ 0)).count a := by
  rw [Counted, List.perm_iff_count]
  simp only [List.count_append]

theorem putChar_counted (h : Counted w s.ledger) (hidle : s.subcore = .idle) (c : U8) :
    Counted (w ++ [c]) (s.putChar c).ledger := by
  have hhand : s.ledger.inHand = [] := congrArg Subcore.inHand hidle
  rw [counted_iff, hhand] at h
  unfold State.putChar
  by_cases hc : c = 0
  · have hskip : [c].filter (· ≠ 0) = [] := by simp [hc]
    rw [if_pos hc, counted_iff, List.filter_append, hskip, List.append_nil, hhand]
    exact h
  have hkeep : [c].filter (· ≠ 0) = [c] := List.filter_cons_of_pos (by simpa using hc)
  have hnext : ∀ g : Ledger, (∀ a, g.accepted.count a + g.dropped.count a + g.uart.count a +
      g.inHand.count a = s.accepted.count a + s.dropped.count a + s.uart.count a + [c].count a) →
      Counted (w ++ [c]) g := by
    intro g hg
    rw [counted_iff]
    intro a
    have ha : s.accepted.count a + s.dropped.count a + s.uart.count a + 0 = _ := h a
    rw [hg, List.filter_append, hkeep, List.count_append, ← ha, Nat.add_zero]
  rw [if_neg hc]
  split_ifs
  · exact hnext _ fun a => rfl
  · refine hnext _ fun a => ?_
    simp only [State.ledger, hidle, Subcore.inHand, List.count_append, List.count_nil]
    omega
  · rw [createRequest_ledger]
    exact hnext _ fun a => rfl

theorem step_counted (h : Counted w s.ledger) (hs : Step s l s') (hcrash : l ≠ .crash) :
    Counted (w ++ written [l]) s'.ledger := by
  by_cases hmain : l.onMain = true
  · obtain ⟨hledger, -, hwritten⟩ := main_ledger hmain hs
    rw [hledger, hwritten, List.append_nil]
    exact h
  obtain ⟨hl, rfl⟩ := hs
  cases l with
  | put c => exact putChar_counted h hl c
  | retry c =>
      have hl' : s.subcore = .retrying c := hl
      rw [State.ledger, hl'] at h
      rw [State.next, createRequest_ledger, show written [.retry c] = [] from rfl, List.append_nil]
      exact h
  | giveUp c =>
      have hl' : s.subcore = .retrying c := hl
      rw [counted_iff, State.ledger, hl'] at h
      rw [counted_iff]
      intro a
      rw [show written [.giveUp c] = [] from rfl, List.append_nil, ← h a]
      simp only [State.next, State.ledger, Subcore.inHand, List.count_append, List.count_nil]
      omega
  | store c =>
      have hl' : s.subcore = .storing c := hl
      rw [counted_iff, State.ledger, hl'] at h
      rw [State.next, store_ledger, counted_iff]
      intro a
      rw [show written [.store c] = [] from rfl, List.append_nil, ← h a]
      simp only [Subcore.inHand, List.count_append, List.count_nil]
      omega
  | trigger =>
      have hl' : s.subcore = .notifying := hl
      rw [State.ledger, hl'] at h
      rw [show written [.trigger] = [] from rfl, List.append_nil]
      exact h
  | panic =>
      have hl' : s.subcore = .panicking := hl
      rw [State.ledger, hl'] at h
      rw [show written [.panic] = [] from rfl, List.append_nil]
      exact h
  | init =>
      rw [show written [.init] = [] from rfl, List.append_nil]
      exact h
  | otherTrigger =>
      rw [show written [.otherTrigger] = [] from rfl, List.append_nil]
      exact h
  | crash => exact (hcrash rfl).elim
  | _ => exact absurd rfl hmain

theorem run_counted (hrun : Run Step s ls s') (h : Counted w s.ledger)
    (hcrash : Label.crash ∉ ls) : Counted (w ++ written ls) s'.ledger := by
  induction hrun generalizing w with
  | done s => simpa [written] using h
  | next hs _ ih =>
      rw [List.mem_cons, not_or] at hcrash
      have hrest := ih (step_counted h hs (Ne.symm hcrash.1)) hcrash.2
      rw [List.append_assoc, written, written, ← List.filterMap_append] at hrest
      exact hrest

end Order

section Rest
variable {v : Service} {subcoreType : SubcoreType} {mem : Memory 32} {s s' : State} {t : Fifos}
  {l : Label} {ls ks : List Label}

/-- What is left to do for the task before it waits or sleeps. -/
def Task.work : Task → ℕ
  | .waiting | .asleep => 0
  | .reporting => 1
  | .receiving => 2
  | .checking => 3
  | .destroying _ => 4
  | .printing _ i => 5 + (maxLen - i)

/-- A bound on the steps of the main core that are left. -/
def State.work (s : State) : ℕ :=
  200 * (receivable 16 s.ring).length + s.task.work + 4 * s.notified.toNat +
    5 * s.svcIntr.toNat + 5 * s.panicIntr.toNat + (!s.latchDropped).toNat

theorem receivable_of_inv (h : Inv v s t) : receivable 16 s.ring = t.sent.map Prod.fst := by
  rw [← v.queueLen, receivable_of_refines h.refines]

theorem receive_work (h : Inv v s t) (htask : s.task = .receiving) : s.receive.work < s.work := by
  have hbefore := receivable_of_inv h
  rcases recv_cases v.placed h.refines with ⟨hs, hret, hr⟩ | ⟨b, size, rest, hs, hret, hb, hr⟩
  · have hret' : (s.ring.reply .recv).ret ≠ espOk := hret
    have hafter := receivable_of_refines hr
    rw [v.queueLen] at hafter
    simp only [State.receive, ne_eq, hret', not_false_eq_true, if_true, State.work, hafter, hbefore,
      htask, Task.work]
    omega
  · have hret' : (s.ring.reply .recv).ret = espOk := hret
    have hafter := receivable_of_refines hr
    rw [v.queueLen] at hafter
    have hmax : maxLen = 124 := rfl
    simp only [State.receive, ne_eq, hret', not_true_eq_false, if_false, State.work, hafter,
      hbefore, htask, hs, List.map_cons, List.length_cons]
    split_ifs <;> simp only [Task.work] <;> omega

theorem print_work (h : Inv v s t) {param : U32} {i : ℕ} (htask : s.task = .printing param i) :
    (s.print param i).work < s.work := by
  have hshown := h.shown
  rw [htask] at hshown
  obtain ⟨ps, p, hps, -, hi, -⟩ := hshown
  have hsent : p ∈ s.sent := by
    rw [h.log, hps]
    simp
  have hlen := (h.sent_packet hsent).2
  rw [State.print]
  by_cases hz : s.mem (param + BitVec.ofNat 32 i) = 0
  · simp only [hz, if_true, State.work, htask, Task.work]
    omega
  · simp only [hz, if_false, State.work, htask, Task.work]
    omega

theorem destroy_work (h : Inv v s t) {param : U32} (htask : s.task = .destroying param) :
    (s.destroy param).work < s.work := by
  have hreceived := h.received
  rw [htask] at hreceived
  have hpos : t.received ≠ 0 := by
    rw [hreceived]
    exact Nat.one_ne_zero
  obtain ⟨-, hnext⟩ := refines_call v.placed h.refines (.free (param - 4#32))
  simp only [fifoStep, if_neg hpos] at hnext
  have hafter := receivable_of_refines hnext
  rw [v.queueLen] at hafter
  simp only [State.destroy, State.work, hafter, receivable_of_inv h, htask, Task.work]
  omega

/-- A step of the main core by which it gets on. -/
def MainStep (s : State) (l : Label) (s' : State) : Prop :=
  Step s l s' ∧ l.onMain = true ∧ l ≠ .elapse

theorem mainStep_work (h : Inv v s t) (hs : MainStep s l s') : s'.work < s.work := by
  obtain ⟨⟨hl, rfl⟩, hmain, helapse⟩ := hs
  cases l with
  | init => cases hmain
  | put c => cases hmain
  | retry c => cases hmain
  | giveUp c => cases hmain
  | store c => cases hmain
  | trigger => cases hmain
  | crash => cases hmain
  | panic => cases hmain
  | otherTrigger => cases hmain
  | dropLatch =>
      have hl' : s.latchDropped = false := hl.2.1
      simp only [State.next, State.work, hl', Bool.not_false, Bool.not_true, Bool.toNat_true,
        Bool.toNat_false]
      omega
  | interrupt =>
      have hl' : s.svcIntr = true := hl.1
      have hnotified := Bool.toNat_le s.notified
      simp only [State.next, State.work, hl', Bool.toNat_true, Bool.toNat_false]
      omega
  | panicInterrupt =>
      have hl' : s.panicIntr = true := hl.1
      have hnotified := Bool.toNat_le s.notified
      simp only [State.next, State.work, hl', Bool.toNat_true, Bool.toNat_false]
      omega
  | wake =>
      obtain ⟨htask, hnotified⟩ := hl
      simp only [State.next, State.work, htask, hnotified, Task.work, Bool.toNat_true,
        Bool.toNat_false]
      omega
  | check =>
      have hl' : s.task = .checking := hl
      simp only [State.next, State.work, hl']
      split_ifs <;> simp only [Task.work] <;> omega
  | receive => exact receive_work h hl
  | print param i => exact print_work h hl
  | destroy param => exact destroy_work h hl
  | report =>
      have hl' : s.task = .reporting := hl
      simp only [State.next, State.work, hl', Task.work]
      omega
  | elapse => exact (helapse rfl).elim

theorem mainRun_work (h : Inv v s t) (hrun : Run MainStep s ls s') :
    (∃ t', Inv v s' t') ∧ ls.length + s'.work ≤ s.work := by
  induction hrun generalizing t with
  | done s => exact ⟨⟨t, h⟩, by simp⟩
  | next hs _ ih =>
      obtain ⟨t', h'⟩ := step_inv hs.1 h
      obtain ⟨hinv, hlen⟩ := ih h'
      have hlt := mainStep_work h hs
      refine ⟨hinv, ?_⟩
      rw [List.length_cons]
      omega

/-- No step of the main core is left. -/
def AtRest (s : State) : Prop := ∀ l s', ¬ MainStep s l s'

theorem AtRest.flags (h : AtRest s) (hlatch : s.latchDropped = false) :
    s.svcIntr = false ∧ s.panicIntr = false ∧
    ((s.task = .waiting ∧ s.notified = false) ∨ s.task = .asleep) := by
  have hnot : ∀ l, l.onMain = true → l ≠ .elapse → ¬ s.Enabled l :=
    fun l hmain helapse hl => h l _ ⟨⟨hl, rfl⟩, hmain, helapse⟩
  have hsvc := hnot .interrupt rfl (by simp)
  have hintr := hnot .panicInterrupt rfl (by simp)
  refine ⟨Bool.eq_false_iff.mpr fun hset => hsvc ⟨hset, hlatch⟩,
    Bool.eq_false_iff.mpr fun hset => hintr ⟨hset, hlatch⟩, ?_⟩
  cases htask : s.task with
  | waiting =>
      have hwake := hnot .wake rfl (by simp)
      exact .inl ⟨rfl, Bool.eq_false_iff.mpr fun hnotified => hwake ⟨htask, hnotified⟩⟩
  | asleep => exact .inr rfl
  | checking => exact (hnot .check rfl (by simp) htask).elim
  | receiving => exact (hnot .receive rfl (by simp) htask).elim
  | printing param i => exact (hnot (.print param i) rfl (by simp) htask).elim
  | destroying param => exact (hnot (.destroy param) rfl (by simp) htask).elim
  | reporting => exact (hnot .report rfl (by simp) htask).elim

/-- What the console shows of the stored characters once it is complete. -/
def consoleText (input : List U8) : List U8 :=
  (cut input).pieces.flatMap fun piece => dropLineFeed piece ++ [chr '\n']

theorem sent_text (h : Inv v s t) : s.sent.flatMap line = consoleText s.accepted := by
  have hsent : s.sent.map Packet.payload = (cut s.accepted).pieces.map dropLineFeed := h.tracks.sent
  have hline : s.sent.flatMap line =
      (s.sent.map Packet.payload).flatMap fun text => text ++ [chr '\n'] := by
    rw [List.flatMap_map]
    rfl
  rw [hline, hsent, List.flatMap_map]
  rfl

theorem printed_prefix (h : Inv v s t) : s.printed <+: consoleText s.accepted := by
  rw [← sent_text h, h.log, List.flatMap_append]
  have hshown := h.shown
  by_cases hheld : s.task.held = []
  · rw [(shown_iff hheld).mp hshown]
    exact List.prefix_append _ _
  cases htask : s.task with
  | printing param i =>
      rw [htask] at hshown
      obtain ⟨ps, p, hps, -, -, hout⟩ := hshown
      rw [hout, hps, List.flatMap_append, List.append_assoc, List.prefix_append_right_inj]
      refine List.IsPrefix.trans ?_ (List.prefix_append _ _)
      rw [List.flatMap_singleton, line]
      exact (List.take_prefix _ _).trans (List.prefix_append _ _)
  | destroying param =>
      rw [htask] at hshown
      rw [show s.printed = s.received.flatMap line from hshown]
      exact List.prefix_append _ _
  | _ => exact (hheld (by rw [htask]; rfl)).elim

/-- Once nothing is signalled, nothing is under way. -/
theorem complete_of_not_signalled (h : Inv v s t) (hquiet : ¬ Signalled s) :
    t.sent = [] ∧ s.printed = consoleText s.accepted := by
  have hsent : t.sent = [] := by
    by_contra hne
    exact hquiet (h.signalled hne)
  have hwaiting : s.task = .waiting := by
    by_contra hne
    exact hquiet (.inl hne)
  have hshown := h.shown
  rw [hwaiting] at hshown
  refine ⟨hsent, ?_⟩
  rw [← sent_text h, h.log, hsent, List.map_nil, List.append_nil]
  exact hshown

theorem Task.length_held (task : Task) : task.held.length ≤ 1 := by
  cases task <;> simp [Task.held]

/-- A request is refused when no item is free, so all but one wait for the main core. -/
theorem refused_length (h : Inv v s t) (hbuf : s.buf = 0) {c : U8}
    (hrefused : (s.createRequest c).subcore = .retrying c) :
    15 ≤ (receivable 16 s.ring).length := by
  obtain ⟨hreply, -⟩ := refines_call v.placed h.refines (.alloc itemSize)
  have hsize : ¬ v.ring.itemSize < itemSize := by
    rw [v.itemSize]
    decide
  simp only [fifoStep, if_neg hsize] at hreply
  have hfree : t.free = [] := by
    cases hfree : t.free with
    | nil => rfl
    | cons b bs =>
        simp only [hfree] at hreply
        simp [State.createRequest, hreply] at hrefused
  have hlen := h.total.length_eq
  have hheld := Task.length_held s.task
  rw [receivable_of_inv h]
  simp only [hfree, held_eq_nil hbuf, Setup.addrs, List.length_append, List.length_nil,
    List.length_map, List.length_range, v.queueLen] at hlen ⊢
  omega

/-- The supplicant reports and sleeps only behind a panic. -/
def PanicKnown (s : State) : Prop :=
  s.task = .reporting ∨ s.task = .asleep → s.isSubcorePanic = true

/-- The main core is where it was. -/
structure SameMain (s s' : State) : Prop where
  task : s'.task = s.task
  notified : s'.notified = s.notified
  panic : s'.isSubcorePanic = s.isSubcorePanic
  output : s'.output = s.output
  received : s'.received = s.received

theorem createRequest_sameMain (s : State) (c : U8) : SameMain s (s.createRequest c) := by
  unfold State.createRequest
  simp only
  split_ifs <;> exact ⟨rfl, rfl, rfl, rfl, rfl⟩

theorem sendRequest_sameMain (s : State) (id : U16) (param : U32) (paramLen : U16) :
    SameMain s (s.sendRequest id param paramLen) := by
  unfold State.sendRequest
  simp only
  split_ifs <;> exact ⟨rfl, rfl, rfl, rfl, rfl⟩

/-- Neither the subcore nor the wrapper has a hand in the task. -/
theorem subcore_sameMain (hmain : l.onMain = false) (hs : Step s l s') : SameMain s s' := by
  obtain ⟨-, rfl⟩ := hs
  cases l with
  | put c =>
      simp only [State.next, State.putChar]
      split_ifs
      · exact ⟨rfl, rfl, rfl, rfl, rfl⟩
      · exact ⟨rfl, rfl, rfl, rfl, rfl⟩
      · exact ⟨rfl, rfl, rfl, rfl, rfl⟩
      · exact createRequest_sameMain s c
  | retry c => exact createRequest_sameMain s c
  | store c =>
      simp only [State.next, State.store]
      split_ifs
      · obtain ⟨htask, hnotified, hpanic, hout, hreceived⟩ := sendRequest_sameMain
          { s with
            mem := stripLine (write (write s.mem (slot s.buf s.pos) [c])
              (slot s.buf (s.pos + 1)) [0]) s.buf (s.pos + 1)
            pos := s.pos + 1
            subcore := .idle
            accepted := s.accepted ++ [c] } 1 s.buf (s.pos + 1 + 1)
        exact ⟨htask, hnotified, hpanic, hout, hreceived⟩
      · exact ⟨rfl, rfl, rfl, rfl, rfl⟩
  | init => exact ⟨rfl, rfl, rfl, rfl, rfl⟩
  | giveUp c => exact ⟨rfl, rfl, rfl, rfl, rfl⟩
  | trigger => exact ⟨rfl, rfl, rfl, rfl, rfl⟩
  | crash => exact ⟨rfl, rfl, rfl, rfl, rfl⟩
  | panic => exact ⟨rfl, rfl, rfl, rfl, rfl⟩
  | otherTrigger => exact ⟨rfl, rfl, rfl, rfl, rfl⟩
  | _ => cases hmain

theorem step_panicKnown (hs : Step s l s') (h : PanicKnown s) : PanicKnown s' := by
  by_cases hmain : l.onMain = true
  · obtain ⟨hl, rfl⟩ := hs
    cases l with
    | check =>
        simp only [PanicKnown, State.next]
        split_ifs with hpanic
        · exact fun _ => hpanic
        · simp
    | receive =>
        simp only [PanicKnown, State.next, State.receive]
        split_ifs <;> simp
    | print param i =>
        simp only [PanicKnown, State.next, State.print]
        split_ifs <;> simp
    | dropLatch => exact h
    | interrupt => exact h
    | panicInterrupt => exact fun _ => rfl
    | wake => simp [PanicKnown, State.next]
    | destroy param => simp [PanicKnown, State.next, State.destroy]
    | report => exact fun _ => h (.inl hl)
    | elapse => simp [PanicKnown, State.next]
    | _ => cases hmain
  · have hsame := subcore_sameMain (by simpa using hmain) hs
    rw [PanicKnown, hsame.task, hsame.panic]
    exact h

theorem run_panicKnown (hrun : Run Step (start v subcoreType mem) ls s) : PanicKnown s :=
  hrun.invariant (fun _ _ _ hs h => step_panicKnown hs h) (by simp [PanicKnown, start])

/-- No panic is known or under way. -/
def Calm (s : State) : Prop := s.panicIntr = false ∧ s.isSubcorePanic = false

theorem mainStep_calm (hs : MainStep s l s') (h : Calm s) : Calm s' := by
  obtain ⟨⟨hl, rfl⟩, hmain, helapse⟩ := hs
  cases l with
  | panicInterrupt => exact absurd hl.1 (by simp [h.1])
  | receive =>
      simp only [State.next, State.receive]
      split_ifs <;> exact h
  | print param i =>
      simp only [State.next, State.print]
      split_ifs <;> exact h
  | dropLatch => exact h
  | interrupt => exact h
  | wake => exact h
  | check => exact h
  | destroy param => exact h
  | report => exact h
  | elapse => exact (helapse rfl).elim
  | _ => cases hmain

theorem mainRun_calm (hrun : Run MainStep s ks s') (hknown : PanicKnown s) (h : Calm s) :
    PanicKnown s' ∧ Calm s' :=
  hrun.invariant (P := fun s => PanicKnown s ∧ Calm s)
    (fun _ _ _ hs h => ⟨step_panicKnown hs.1 h.1, mainStep_calm hs h.2⟩) ⟨hknown, h⟩

theorem mainRun_ledger (hrun : Run MainStep s ks s') :
    s'.ledger = s.ledger ∧ s'.subcore = s.subcore := by
  induction hrun with
  | done s => exact ⟨rfl, rfl⟩
  | next hs _ ih =>
      obtain ⟨hledger, hsubcore, -⟩ := main_ledger hs.2.1 hs.1
      obtain ⟨hledger', hsubcore'⟩ := ih
      exact ⟨hledger'.trans hledger, hsubcore'.trans hsubcore⟩

/-- The latch is only ever dropped beside an LP subcore. -/
def Latched (subcoreType : SubcoreType) (s : State) : Prop :=
  s.subcoreType = subcoreType ∧ (subcoreType = .hpCore → s.latchDropped = false)

theorem createRequest_latched (h : Latched subcoreType s) (c : U8) :
    Latched subcoreType (s.createRequest c) := by
  unfold State.createRequest
  simp only
  split_ifs <;> exact h

theorem sendRequest_latched (h : Latched subcoreType s) (id : U16) (param : U32)
    (paramLen : U16) : Latched subcoreType (s.sendRequest id param paramLen) := by
  unfold State.sendRequest
  simp only
  split_ifs <;> exact h

theorem step_latched (hs : Step s l s') (h : Latched subcoreType s) :
    Latched subcoreType s' := by
  obtain ⟨hl, rfl⟩ := hs
  cases l with
  | put c =>
      simp only [State.next, State.putChar]
      split_ifs
      · exact h
      · exact h
      · exact h
      · exact createRequest_latched h c
  | retry c => exact createRequest_latched h c
  | store c =>
      simp only [State.next, State.store]
      split_ifs
      · exact sendRequest_latched (s := { s with
          mem := stripLine (write (write s.mem (slot s.buf s.pos) [c])
            (slot s.buf (s.pos + 1)) [0]) s.buf (s.pos + 1)
          pos := s.pos + 1
          subcore := .idle
          accepted := s.accepted ++ [c] }) h 1 s.buf (s.pos + 1 + 1)
      · exact h
  | trigger => exact ⟨h.1, fun _ => rfl⟩
  | panic => exact ⟨h.1, fun _ => rfl⟩
  | otherTrigger => exact ⟨h.1, fun _ => rfl⟩
  | dropLatch =>
      refine ⟨h.1, fun hhp => ?_⟩
      have hlp : s.subcoreType = .lpCore := hl.1
      rw [h.1, hhp] at hlp
      cases hlp
  | receive =>
      simp only [State.next, State.receive]
      split_ifs <;> exact h
  | print param i =>
      simp only [State.next, State.print]
      split_ifs <;> exact h
  | _ => exact h

/-- Between two HP cores no latch is dropped, by the steps of the main core either. -/
theorem run_latched (hrun : Run Step (start v subcoreType mem) ls s) (hmain : Run MainStep s ks s')
    (hlatch : subcoreType = .hpCore ∨ s'.latchDropped = false) : s'.latchDropped = false := by
  have h : Latched subcoreType s :=
    hrun.invariant (fun _ _ _ hs h => step_latched hs h) ⟨rfl, fun _ => rfl⟩
  have h' : Latched subcoreType s' :=
    Run.invariant (P := Latched subcoreType) (fun _ _ _ hs h => step_latched hs.1 h) hmain h
  exact hlatch.elim h'.2 id

/-- A written character is retried only when its request was refused. -/
theorem putChar_retrying (hidle : s.subcore = .idle) {c : U8}
    (h : (s.putChar c).subcore = .retrying c) :
    s.buf = 0 ∧ (s.createRequest c).subcore = .retrying c := by
  unfold State.putChar at h
  split_ifs at h with hc hbuf hready
  · exact absurd (hidle.symm.trans h) (by simp)
  · exact absurd (hidle.symm.trans h) (by simp)
  · exact ⟨not_not.mp hbuf, h⟩

end Rest

section Results
variable {v : Service} {subcoreType : SubcoreType} {mem : Memory 32} {s s' : State}
  {ls ks : List Label}

/-- Whatever the order of the steps, the console shows a prefix of the lines into which the
stored characters are cut, and these come in the order they were written. -/
theorem console_shows_prefix (hrun : Run Step (start v subcoreType mem) ls s) :
    s.accepted.Sublist (written ls) ∧ IsCut s.accepted (cut s.accepted) ∧
      s.printed <+: consoleText s.accepted := by
  obtain ⟨t, h⟩ := run_inv hrun
  have hordered : Ordered ([] ++ written ls) s.ledger := run_ordered hrun (List.Sublist.refl [])
  exact ⟨(List.sublist_append_left _ _).trans hordered, cut_isCut _, printed_prefix h⟩

/-- The item buffers are split among the two queue directions, the subcore and the
supplicant. Every character is stored, dropped, sent to the UART or in hand. A character is
refused a buffer only while fifteen lines wait for the main core. -/
theorem console_loses_only_overflow (hrun : Run Step (start v subcoreType mem) ls s) :
    (allocable 16 s.ring ++ s.held ++ receivable 16 s.ring ++ s.task.held).Perm v.ring.addrs ∧
      (Label.crash ∉ ls → Counted (written ls) s.ledger) ∧
      ∀ c s', (Step s (.put c) s' ∨ Step s (.retry c) s') → s'.subcore = .retrying c →
        15 ≤ (receivable 16 s.ring).length := by
  obtain ⟨t, h⟩ := run_inv hrun
  have hfree : allocable 16 s.ring = t.free := by
    rw [← v.queueLen, allocable_of_refines h.refines]
  have htotal := h.total
  rw [← hfree, ← receivable_of_inv h] at htotal
  have hcounted : Label.crash ∉ ls → Counted ([] ++ written ls) s.ledger :=
    run_counted hrun (List.Perm.refl [])
  refine ⟨htotal, hcounted, ?_⟩
  rintro c s' (⟨hl, rfl⟩ | ⟨hl, rfl⟩) hretrying
  · obtain ⟨hbuf, hrefused⟩ := putChar_retrying hl hretrying
    exact refused_length h hbuf hrefused
  · exact refused_length h (h.retrying c hl).1 hretrying

/-- While the subcore owes no trigger and has not panicked, the main core comes to rest
after a bounded number of its steps, and then the console is complete, unless the latch of
its wake-up has been dropped by then. -/
theorem console_drains (hrun : Run Step (start v subcoreType mem) ls s)
    (hnotify : s.subcore ≠ .notifying) (hcrash : s.subcore ≠ .panicking)
    (hintr : s.panicIntr = false) (hpanic : s.isSubcorePanic = false)
    (hmain : Run MainStep s ks s') :
    ks.length ≤ s.work ∧ (AtRest s' → subcoreType = .hpCore ∨ s'.latchDropped = false →
      s'.printed = consoleText s.accepted) := by
  obtain ⟨t, h⟩ := run_inv hrun
  obtain ⟨⟨t', h'⟩, hlen⟩ := mainRun_work h hmain
  refine ⟨by omega, fun hrest hlatch => ?_⟩
  obtain ⟨hknown', hcalm'⟩ := mainRun_calm hmain (run_panicKnown hrun) ⟨hintr, hpanic⟩
  obtain ⟨hledger, hsubcore⟩ := mainRun_ledger hmain
  obtain ⟨hsvc, hintr', htask⟩ := hrest.flags (run_latched hrun hmain hlatch)
  have hquiet : ¬ Signalled s' := by
    rcases htask with ⟨htask, hnotified⟩ | htask
    · simp [Signalled, htask, hnotified, hsvc, hintr', hsubcore, hnotify, hcrash]
    · exact absurd (hknown' (.inr htask)) (by simp [hcalm'.2])
  rw [(complete_of_not_signalled h' hquiet).2]
  exact congrArg consoleText (congrArg Ledger.accepted hledger)

end Results

theorem four_le : 4 ≤ 15 := by decide

/-- Sixteen items behind their descriptors. -/
def consoleRing : Setup where
  k := 4
  k_le := four_le
  itemSize := 128
  descPtr := 0x4087a010
  buffer := 0x4087a090
  table := fun _ => ⟨0, 0, 0⟩
  notifyFc := some fun _ => 0
  callbackFc := none
  masterPriv := 0
  remotePriv := 0

theorem consoleRing_placed : Placed consoleRing where
  quiet := by
    intro f hf
    cases hf
    rfl
  itemSize_ne := by decide
  buffer_pos := by decide
  area_lt := by decide

theorem consoleRing_n : consoleRing.n = 16 := rfl

theorem consoleRing_itemSize : consoleRing.itemSize = 128#16 := rfl

def consoleService : Service :=
  ⟨consoleRing, consoleRing_placed, consoleRing_n, consoleRing_itemSize⟩

/-- A line is sent. -/
def sending : List Label :=
  [.init, .put (chr 'o'), .store (chr 'o'), .put (chr 'k'), .store (chr 'k'), .put (chr '\n'),
    .store (chr '\n'), .trigger]

/-- The main core prints it. -/
def receiving : List Label :=
  [.interrupt, .wake, .check, .receive, .print 0x4087a094 0, .print 0x4087a094 1,
    .print 0x4087a094 2, .destroy 0x4087a094, .check, .receive]

def consoleStart : State := start consoleService .lpCore fun _ => 0

def sentState : State := sending.foldl State.next consoleStart

def printedState : State := receiving.foldl State.next sentState

theorem sending_run : Run Step consoleStart sending sentState := by
  have h : Run.Allowed State.Enabled State.next consoleStart sending := by decide +kernel
  exact Run.of_allowed h

theorem receiving_run : Run Step sentState receiving printedState := by
  have h : Run.Allowed State.Enabled State.next sentState receiving := by decide +kernel
  exact Run.of_allowed h

theorem mainRun_of_run {s s' : State} {ls : List Label} (hrun : Run Step s ls s')
    (hmain : ∀ l ∈ ls, l.onMain = true ∧ l ≠ .elapse) : Run MainStep s ls s' := by
  induction hrun with
  | done s => exact .done s
  | next hs _ ih =>
      rw [List.forall_mem_cons] at hmain
      exact .next ⟨hs, hmain.1⟩ (ih hmain.2)

theorem line_is_shown : printedState.printed = ascii "ok\n" ∧
    printedState.accepted.Sublist (written (sending ++ receiving)) ∧
    IsCut printedState.accepted (cut printedState.accepted) ∧
    printedState.printed <+: consoleText printedState.accepted :=
  ⟨by decide +kernel, console_shows_prefix (sending_run.append receiving_run)⟩

theorem line_is_counted : sentState.accepted = ascii "ok\n" ∧
    (allocable 16 sentState.ring ++ sentState.held ++ receivable 16 sentState.ring ++
      sentState.task.held).Perm consoleService.ring.addrs ∧
    Counted (written sending) sentState.ledger := by
  obtain ⟨htotal, hcounted, -⟩ := console_loses_only_overflow sending_run
  exact ⟨by decide +kernel, htotal, hcounted (by decide)⟩

theorem line_is_drained : Run MainStep sentState receiving printedState ∧ sentState.work ≤ 206 ∧
    receiving.length ≤ sentState.work ∧
    (AtRest printedState → printedState.printed = consoleText sentState.accepted) := by
  have hmain : Run MainStep sentState receiving printedState :=
    mainRun_of_run receiving_run (by decide)
  have hlatch : printedState.latchDropped = false := by decide +kernel
  obtain ⟨hlen, hdrained⟩ := console_drains sending_run (by decide +kernel) (by decide +kernel)
    (by decide +kernel) (by decide +kernel) hmain
  exact ⟨hmain, by decide +kernel, hlen, fun hrest => hdrained hrest (.inr hlatch)⟩

end EspAmp.ServiceQueue
