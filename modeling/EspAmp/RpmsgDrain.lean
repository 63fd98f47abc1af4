import EspAmp.RpmsgPair

/-!
# Draining the receive queue

The interrupt handler of a device polls until a poll does not return zero. A
poll returns `-1` when the queue is empty, and also when it took a message whose
destination is unknown, so the loop may end early. Between two polls the
endpoint callbacks run and the other core goes on; any legal steps may happen
there, except polls and endpoint changes of the interrupted device, which the
interface does not allow in interrupt context.
-/
namespace EspAmp.RpmsgDrain
open ByteMemory Virtqueue VirtqueueFifo VirtqueueOwnership ReplyMachine Rpmsg RpmsgChannel RpmsgPair

/-- Return value of `esp_amp_rpmsg_poll` on one side. -/
def pollRet (s : Sys) (d : Side) : Int :=
  (rpmsgPoll ⟨(s.chan d.other).ring, s.mem⟩ (s.chan d.other).epts).1.1

/-- The messages that successive receptions on one side would find. -/
def available (p : Pair) (s : Sys) (d : Side) : List Msg :=
  (receivable (p.link d.other).n (s.chan d.other).ring).map (msgAt s.mem)

/-- The destination has an endpoint, with or without a callback. -/
def Registered (s : Sys) (d : Side) (m : Msg) : Prop :=
  (searchEndpoint (s.chan d.other).epts m.dst).isSome

instance (s : Sys) (d : Side) : DecidablePred (Registered s d) := fun _ =>
  inferInstanceAs (Decidable (_ = true))

/-- `__esp_amp_rpmsg_rx_callback`: the states before and after its last poll.
After every other poll come the steps of `during`. -/
def rxCallback (p : Pair) (d : Side) (during : Sys → Sys) : ℕ → Sys → Option (Sys × Sys)
  | 0, _ => none
  | fuel + 1, s =>
      if pollRet s d = 0 then rxCallback p d during fuel (during (s.exec p d .poll))
      else some (s, s.exec p d .poll)

/-- What may happen while side `d` is in its interrupt handler. -/
def Meanwhile (d : Side) : Side × Op → Prop
  | (e, .poll) | (e, .createEndpoint _ _ _ _) | (e, .deleteEndpoint _)
  | (e, .rebindEndpoint _ _ _) => e ≠ d
  | (_, .createMessage _ _) | (_, .store _ _) | (_, .sendNocopy _ _ _ _) | (_, .send _ _ _ _)
  | (_, .destroy _) => True

def MeanwhileStep (p : Pair) (d : Side) (s : Sys) (l : Side × Op) (s' : Sys) : Prop :=
  Step p s l s' ∧ Meanwhile d l

/-- The last attempt found the queue empty, and the messages available at entry
and those that came later were taken and looked up once each, in order. -/
def Drained (p : Pair) (d : Side) (s : Sys) (r : Sys × Sys) : Prop :=
  ((r.1.chan d.other).ring.reply .recv).ret ≠ 0 ∧
    ∃ taken late, (r.2.chan d.other).polled = (s.chan d.other).polled ++ taken ∧
      (r.2.chan d.other).sent = (s.chan d.other).sent ++ late ∧
      taken.map Polled.msg = available p s d ++ late ∧
      ∀ e ∈ taken, e.ept = searchEndpoint (s.chan d.other).epts e.msg.dst

/-- One channel later on: messages may have been sent, none was polled. -/
structure Later (c c' : Chan) : Prop where
  epts : c'.epts = c.epts
  polled : c'.polled = c.polled
  sent : c.sent <+: c'.sent

theorem Later.refl (c : Chan) : Later c c := ⟨rfl, rfl, List.prefix_rfl⟩

theorem Later.trans {c c' c'' : Chan} (h : Later c c') (k : Later c' c'') : Later c c'' :=
  ⟨k.epts.trans h.epts, k.polled.trans h.polled, h.sent.trans k.sent⟩

theorem Later.of_senderOnly {c c' : Chan} (h : c.SenderOnly c') : Later c c' :=
  ⟨h.epts, h.polled, h.sent⟩

theorem destroy_later (c : Chan) (msgData : U32) : Later c (c.destroy msgData) := by
  simp only [Chan.destroy]
  split_ifs <;> exact ⟨rfl, rfl, List.prefix_rfl⟩

section Runs
variable {p : Pair} {s s' : Sys} {d : Side}

theorem setChan_later {e : Side} {c : Chan} {m : Memory 32}
    (h : e = d.other → Later (s.chan d.other) c) :
    Later (s.chan d.other) ({ s.setChan e c with mem := m }.chan d.other) := by
  by_cases he : d.other = e
  · subst he
    simpa [Sys.setChan] using h rfl
  · simpa [Sys.setChan, he] using Later.refl _

theorem meanwhileStep_later {l : Side × Op} (h : MeanwhileStep p d s l s') :
    Later (s.chan d.other) (s'.chan d.other) := by
  obtain ⟨⟨-, rfl⟩, hm⟩ := h
  obtain ⟨e, op⟩ := l
  have hother : e ≠ d → e.other ≠ d.other := fun h₁ h₂ => h₁ (by
    rw [← Side.other_other e, h₂, Side.other_other])
  cases op with
  | createMessage nbytes flags =>
      exact setChan_later fun he => he ▸ .of_senderOnly (Chan.createMessage_senderOnly ..)
  | store x v => exact setChan_later fun he => by rw [he]; exact ⟨rfl, rfl, List.prefix_rfl⟩
  | sendNocopy ept dst data len =>
      exact setChan_later fun he => he ▸ .of_senderOnly (Chan.sendNocopy_senderOnly ..)
  | send ept dst data len =>
      exact setChan_later fun he => he ▸ .of_senderOnly (Chan.send_senderOnly ..)
  | poll => exact setChan_later (m := s.mem) fun he => (hother hm he).elim
  | destroy msgData =>
      exact setChan_later (m := s.mem) fun he => by rw [he]; exact destroy_later ..
  | createEndpoint eptAddr rxCb rxCbData ctx =>
      exact setChan_later (m := s.mem) fun he => (hother hm he).elim
  | deleteEndpoint eptAddr => exact setChan_later (m := s.mem) fun he => (hother hm he).elim
  | rebindEndpoint eptAddr rxCb rxCbData =>
      exact setChan_later (m := s.mem) fun he => (hother hm he).elim

theorem meanwhile_run {ls : List (Side × Op)} (h : Run (MeanwhileStep p d) s ls s')
    (hs : SysInv p s) : SysInv p s' ∧ Later (s.chan d.other) (s'.chan d.other) := by
  induction h with
  | done s => exact ⟨hs, Later.refl _⟩
  | next hstep _ ih =>
      obtain ⟨⟨hl, rfl⟩, -⟩ := id hstep
      obtain ⟨hinv, hlater⟩ := ih (hs.exec hl)
      exact ⟨hinv, (meanwhileStep_later hstep).trans hlater⟩

/-- What was sent is what was polled, followed by what is available. -/
theorem sent_eq (hs : SysInv p s) : (s.chan d.other).sent =
    (s.chan d.other).polled.map Polled.msg ++ available p s d := by
  obtain ⟨t, ht⟩ := hs d.other
  rw [ht.log, available, receivable_of_refines ht.refines, List.map_map]
  rfl

theorem poll_sysInv (hs : SysInv p s) : SysInv p (s.exec p d .poll) :=
  hs.exec (show s.Legal p d .poll from trivial)

theorem poll_keeps : ((s.exec p d .poll).chan d.other).epts = (s.chan d.other).epts ∧
    ((s.exec p d .poll).chan d.other).sent = (s.chan d.other).sent := by
  simp only [Sys.exec, Sys.setChan, Function.update_self, Chan.poll]
  split_ifs <;> exact ⟨rfl, rfl⟩

/-- What one poll finds and does, and what it returns. -/
theorem poll_cases (hs : SysInv p s) :
    (available p s d = [] ∧ ((s.chan d.other).ring.reply .recv).ret ≠ 0 ∧ pollRet s d = -1 ∧
      ((s.exec p d .poll).chan d.other).polled = (s.chan d.other).polled) ∨
    ∃ e rest, available p s d = e.msg :: rest ∧
      ((s.chan d.other).ring.reply .recv).ret = 0 ∧
      e.ept = searchEndpoint (s.chan d.other).epts e.msg.dst ∧
      pollRet s d = (if e.ept.isSome then 0 else -1) ∧
      ((s.exec p d .poll).chan d.other).polled = (s.chan d.other).polled ++ [e] := by
  obtain ⟨t, ht⟩ := hs d.other
  have hav : available p s d = t.sent.map fun q => msgAt s.mem q.1 := by
    rw [available, receivable_of_refines ht.refines, List.map_map]
    rfl
  simp only [hav, Sys.exec, Sys.setChan, Function.update_self, Chan.poll, pollRet, rpmsgPoll]
  rcases recv_cases (p.placed d.other) ht.refines with
    ⟨hsent, hret, -⟩ | ⟨b, size, rest, hsent, hret, hb, -⟩
  · left
    simp only [hsent, ne_eq, hret, not_false_eq_true, if_true]
    exact ⟨rfl, trivial, trivial, trivial⟩
  · right
    simp only [hsent, hret, hb, ne_eq, not_true_eq_false, if_false]
    exact ⟨_, _, rfl, trivial, rfl, rpmsgDispatcher_ret s.mem b, rfl⟩

/-- How the handler ended that was entered in `s`: it took some messages while
others came, and stopped at an empty queue after registered destinations only, or
at a message for an unknown one. -/
structure Ended (p : Pair) (d : Side) (s : Sys) (r : Sys × Sys) (taken : List Polled)
    (late : List Msg) : Prop where
  inv : SysInv p r.2
  polled : (r.2.chan d.other).polled = (s.chan d.other).polled ++ taken
  sent : (r.2.chan d.other).sent = (s.chan d.other).sent ++ late
  looked : ∀ e ∈ taken, e.ept = searchEndpoint (s.chan d.other).epts e.msg.dst
  stopped : (((r.1.chan d.other).ring.reply .recv).ret ≠ 0 ∧ available p r.2 d = [] ∧
      ∀ e ∈ taken, e.ept.isSome) ∨
    (((r.1.chan d.other).ring.reply .recv).ret = 0 ∧ ∃ e ∈ taken, e.ept = none)

theorem ended_of_empty (hs : SysInv p s) (hav : available p s d = [])
    (hempty : ((s.chan d.other).ring.reply .recv).ret ≠ 0)
    (hpolled : ((s.exec p d .poll).chan d.other).polled = (s.chan d.other).polled) :
    Ended p d s (s, s.exec p d .poll) [] [] := by
  have hsent := (poll_keeps (p := p) (s := s) (d := d)).2
  have hpoll := poll_sysInv (d := d) hs
  refine ⟨hpoll, by simpa using hpolled, by simpa using hsent, by simp, .inl ⟨hempty, ?_, by simp⟩⟩
  have hlog := sent_eq (d := d) hpoll
  rw [hsent, hpolled, sent_eq hs, hav, List.append_nil] at hlog
  simpa using hlog

theorem ended_of_unknown (hs : SysInv p s) {e : Polled}
    (hfull : ((s.chan d.other).ring.reply .recv).ret = 0)
    (hept : e.ept = searchEndpoint (s.chan d.other).epts e.msg.dst) (hnone : e.ept = none)
    (hpolled : ((s.exec p d .poll).chan d.other).polled = (s.chan d.other).polled ++ [e]) :
    Ended p d s (s, s.exec p d .poll) [e] [] := by
  have hsent := (poll_keeps (p := p) (s := s) (d := d)).2
  refine ⟨poll_sysInv hs, hpolled, by simpa using hsent, ?_, .inr ⟨hfull, e, by simp, hnone⟩⟩
  intro f hf
  obtain rfl := List.mem_singleton.mp hf
  exact hept

/-- One more message in front, polled for a registered destination. -/
theorem Ended.cons {r : Sys × Sys} {taken : List Polled} {late more : List Msg} {e : Polled}
    (h : Ended p d s' r taken late)
    (hept : e.ept = searchEndpoint (s.chan d.other).epts e.msg.dst) (hsome : e.ept.isSome)
    (hpolled : (s'.chan d.other).polled = (s.chan d.other).polled ++ [e])
    (hepts : (s'.chan d.other).epts = (s.chan d.other).epts)
    (hsent : (s'.chan d.other).sent = (s.chan d.other).sent ++ more) :
    Ended p d s r (e :: taken) (more ++ late) := by
  refine ⟨h.inv, ?_, ?_, ?_, ?_⟩
  · rw [h.polled, hpolled]
    simp
  · rw [h.sent, hsent, List.append_assoc]
  · intro f hf
    rcases List.mem_cons.mp hf with rfl | hf
    · exact hept
    · rw [h.looked f hf, hepts]
  · rcases h.stopped with ⟨h₁, h₂, h₃⟩ | ⟨h₁, f, hf, h₂⟩
    · refine .inl ⟨h₁, h₂, ?_⟩
      intro f hf
      rcases List.mem_cons.mp hf with rfl | hf
      · exact hsome
      · exact h₃ f hf
    · exact .inr ⟨h₁, f, List.mem_cons_of_mem _ hf, h₂⟩

theorem rxCallback_ended {during : Sys → Sys}
    (hd : ∀ s, ∃ ls, Run (MeanwhileStep p d) s ls (during s)) {fuel : ℕ} (hs : SysInv p s)
    {r : Sys × Sys} (h : rxCallback p d during fuel s = some r) :
    ∃ taken late, Ended p d s r taken late := by
  induction fuel generalizing s with
  | zero => cases h
  | succ fuel ih =>
      have hpoll := poll_sysInv (d := d) hs
      rw [rxCallback] at h
      rcases poll_cases (d := d) hs with ⟨hav, hempty, hret, hpolled⟩ |
        ⟨e, rest, -, hfull, hept, hret, hpolled⟩
      · rw [hret, if_neg (by decide)] at h
        cases h
        exact ⟨[], [], ended_of_empty hs hav hempty hpolled⟩
      · by_cases hsome : e.ept.isSome
        · rw [hret, if_pos hsome, if_pos rfl] at h
          obtain ⟨ls, hrun⟩ := hd (s.exec p d .poll)
          obtain ⟨hinv, hlater⟩ := meanwhile_run hrun hpoll
          obtain ⟨taken, late, hend⟩ := ih hinv h
          obtain ⟨hepts, hsent⟩ := poll_keeps (p := p) (s := s) (d := d)
          obtain ⟨more, hmore⟩ := hlater.sent
          refine ⟨e :: taken, more ++ late, hend.cons hept hsome ?_ ?_ ?_⟩
          · rw [hlater.polled, hpolled]
          · rw [hlater.epts, hepts]
          · rw [← hmore, hsent]
        · rw [hret, if_neg hsome, if_neg (by decide)] at h
          cases h
          exact ⟨[e], [], ended_of_unknown hs hfull hept (by simpa using hsome) hpolled⟩

/-- Without new messages the handler returns after one poll for each available
message and one more. -/
theorem rxCallback_returns {during : Sys → Sys}
    (hd : ∀ s, ∃ ls, Run (MeanwhileStep p d) s ls (during s))
    (hquiet : ∀ s, ((during s).chan d.other).sent = (s.chan d.other).sent) {fuel : ℕ}
    (hs : SysInv p s) (hf : (available p s d).length < fuel) :
    ∃ r, rxCallback p d during fuel s = some r ∧
      (r.2.chan d.other).sent = (s.chan d.other).sent := by
  induction fuel generalizing s with
  | zero => cases hf
  | succ fuel ih =>
      have hpoll := poll_sysInv (d := d) hs
      have hsent := (poll_keeps (p := p) (s := s) (d := d)).2
      rw [rxCallback]
      rcases poll_cases (d := d) hs with ⟨-, -, hret, -⟩ | ⟨e, rest, hav, -, -, hret, hpolled⟩
      · rw [hret, if_neg (by decide)]
        exact ⟨_, rfl, hsent⟩
      · by_cases hsome : e.ept.isSome
        · rw [hret, if_pos hsome, if_pos rfl]
          obtain ⟨ls, hrun⟩ := hd (s.exec p d .poll)
          obtain ⟨hinv, hlater⟩ := meanwhile_run hrun hpoll
          have hlen := congrArg List.length (sent_eq (d := d) hs)
          have hlen' := congrArg List.length (sent_eq (d := d) hinv)
          rw [hquiet, hsent, hlater.polled, hpolled] at hlen'
          simp only [hav, List.length_append, List.length_map, List.length_cons,
            List.length_nil] at hlen hlen' hf
          obtain ⟨r, hr, hrs⟩ := ih hinv (by omega)
          exact ⟨r, hr, by rw [hrs, hquiet, hsent]⟩
        · rw [hret, if_neg hsome, if_neg (by decide)]
          exact ⟨_, rfl, hsent⟩

/-- The handler drains the queue exactly when it meets registered destinations
only. -/
theorem drained_iff_registered {during : Sys → Sys}
    (hd : ∀ s, ∃ ls, Run (MeanwhileStep p d) s ls (during s)) {fuel : ℕ} (hs : SysInv p s)
    {r : Sys × Sys} (h : rxCallback p d during fuel s = some r) :
    Drained p d s r ↔ ∀ m ∈ available p s d ++
      (r.2.chan d.other).sent.drop (s.chan d.other).sent.length, Registered s d m := by
  obtain ⟨taken, late, hinv, hpolled, hsent, hlook, hend⟩ := rxCallback_ended hd hs h
  have hall : taken.map Polled.msg ++ available p r.2 d = available p s d ++ late := by
    have hlog := sent_eq (d := d) hinv
    rw [hpolled, hsent, sent_eq hs] at hlog
    simpa using hlog.symm
  rw [hsent, List.drop_left]
  constructor
  · rintro ⟨hempty, taken', late', hp', hs', hmsgs, -⟩
    obtain rfl : taken = taken' := List.append_cancel_left (hpolled.symm.trans hp')
    obtain rfl : late = late' := List.append_cancel_left (hsent.symm.trans hs')
    rcases hend with ⟨-, -, hsome⟩ | ⟨hfull, -⟩
    · intro m hm
      rw [← hmsgs] at hm
      obtain ⟨e, he, rfl⟩ := List.mem_map.mp hm
      rw [Registered, ← hlook e he]
      exact hsome e he
    · exact (hempty hfull).elim
  · intro hreg
    rcases hend with ⟨hempty, hav, -⟩ | ⟨-, e, he, hnone⟩
    · rw [hav, List.append_nil] at hall
      exact ⟨hempty, taken, late, hpolled, hsent, hall, hlook⟩
    · have hm : e.msg ∈ available p s d ++ late := by
        rw [← hall]
        exact List.mem_append_left _ (List.mem_map_of_mem he)
      have := hreg e.msg hm
      rw [Registered, ← hlook e he, hnone] at this
      cases this

/-- A poll fails only on an empty queue exactly when the next message is for a
registered destination. -/
theorem pollRet_iff_registered (hs : SysInv p s) :
    (pollRet s d = -1 → available p s d = []) ↔
      ∀ m ∈ (available p s d).head?, Registered s d m := by
  rcases poll_cases (d := d) hs with ⟨hav, -, -, -⟩ | ⟨e, rest, hav, -, hept, hret, -⟩
  · simp [hav]
  · rw [hret, hav]
    cases he : e.ept with
    | none => simp [Registered, ← hept, he]
    | some ept => simp [Registered, ← hept, he]

end Runs

/-- In every reachable state, and whatever happens meanwhile, the handler leaves
an empty queue behind exactly when the messages available at entry or sent before
it ends are for registered destinations; it always ends when nothing more is
sent. One poll fails only on an empty queue exactly when the next message is for a
registered destination. -/
theorem rx_callback_drains_iff (p : Pair) (mem : Memory 32) {ls : List (Side × Op)} {s : Sys}
    (h : Run (Step p) (p.start mem) ls s) (d : Side) :
    ((pollRet s d = -1 → available p s d = []) ↔
      ∀ m ∈ (available p s d).head?, Registered s d m) ∧
    ∀ during : Sys → Sys, (∀ s, ∃ ls, Run (MeanwhileStep p d) s ls (during s)) →
      (∀ fuel r, rxCallback p d during fuel s = some r →
        (Drained p d s r ↔ ∀ m ∈ available p s d ++
          (r.2.chan d.other).sent.drop (s.chan d.other).sent.length, Registered s d m)) ∧
      ((∀ s, ((during s).chan d.other).sent = (s.chan d.other).sent) →
        ∀ fuel, (available p s d).length < fuel →
          ∃ r, rxCallback p d during fuel s = some r ∧
            (Drained p d s r ↔ ∀ m ∈ available p s d, Registered s d m)) := by
  have hs := run_sysInv h
  refine ⟨pollRet_iff_registered hs, ?_⟩
  intro during hd
  refine ⟨fun fuel r hr => drained_iff_registered hd hs hr, ?_⟩
  intro hquiet fuel hf
  obtain ⟨r, hr, hsent⟩ := rxCallback_returns hd hquiet hs hf
  refine ⟨r, hr, ?_⟩
  have hiff := drained_iff_registered hd hs hr
  rwa [hsent, List.drop_length, List.append_nil] at hiff

/-- The application does nothing while the handler runs. -/
theorem idle_meanwhile (p : Pair) (d : Side) (s : Sys) :
    ∃ ls, Run (MeanwhileStep p d) s ls (id s) := ⟨[], .done s⟩

def sender : Ept := ⟨0x40880000, 1, none, 0⟩

/-- Two messages for an endpoint without a callback. -/
def twoRegistered : List (Side × Op) :=
  [(.sub, .createEndpoint 5 none 0 0x3ffb0000), (.main, .send sender 5 0x20000001 3),
    (.main, .send sender 5 0x20000001 3)]

/-- One message for an unknown destination in front of one for an endpoint. -/
def unknownFirst : List (Side × Op) :=
  [(.sub, .createEndpoint 5 (some 0x42000100) 0 0x3ffb0000),
    (.main, .send sender 9 0x20000001 3), (.main, .send sender 5 0x20000001 3)]

def after (ops : List (Side × Op)) : Sys :=
  ops.foldl (fun s l => s.exec smallPair l.1 l.2) (smallPair.start fun _ => 0)

theorem run_after {ops : List (Side × Op)}
    (h : Run.Allowed (fun (s : Sys) l => s.Legal smallPair l.1 l.2)
      (fun s l => s.exec smallPair l.1 l.2) (smallPair.start fun _ => 0) ops) :
    Run (Step smallPair) (smallPair.start fun _ => 0) ops (after ops) := Run.of_allowed h

theorem twoRegistered_drained :
    Run (Step smallPair) (smallPair.start fun _ => 0) twoRegistered (after twoRegistered) ∧
      (available smallPair (after twoRegistered) .sub).length = 2 ∧
      ∃ r, rxCallback smallPair .sub id 3 (after twoRegistered) = some r ∧
        Drained smallPair .sub (after twoRegistered) r := by
  have hrun : Run (Step smallPair) (smallPair.start fun _ => 0) twoRegistered
      (after twoRegistered) := run_after (by decide +kernel)
  have hiff := (rx_callback_drains_iff smallPair _ hrun .sub).2 id (idle_meanwhile smallPair .sub)
  obtain ⟨r, hr, hdrained⟩ := hiff.2 (fun _ => rfl) 3 (by decide +kernel)
  exact ⟨hrun, by decide +kernel, r, hr, hdrained.mpr (by decide +kernel)⟩

/-- The handler stops behind the message for an unknown destination, and leaves
the other one in the queue. -/
theorem unknownFirst_not_drained :
    Run (Step smallPair) (smallPair.start fun _ => 0) unknownFirst (after unknownFirst) ∧
      pollRet (after unknownFirst) .sub = -1 ∧
      available smallPair (after unknownFirst) .sub =
        [⟨9, 1, 3, [0, 0, 0]⟩, ⟨5, 1, 3, [0, 0, 0]⟩] ∧
      ∃ r, rxCallback smallPair .sub id 3 (after unknownFirst) = some r ∧
        available smallPair r.2 .sub = [⟨5, 1, 3, [0, 0, 0]⟩] ∧
        ¬ Drained smallPair .sub (after unknownFirst) r := by
  have hpoll : pollRet (after unknownFirst) .sub = -1 := by decide +kernel
  have hfull : (((after unknownFirst).chan .main).ring.reply .recv).ret = 0 := by decide +kernel
  refine ⟨run_after (by decide +kernel), hpoll, by decide +kernel,
    (after unknownFirst, (after unknownFirst).exec smallPair .sub .poll), ?_, by decide +kernel,
    fun h => h.1 hfull⟩
  rw [rxCallback, hpoll, if_neg (by decide)]

end EspAmp.RpmsgDrain
